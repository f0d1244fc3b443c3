import Cowrie.Shell.Parser

/-!
# Gluing redirections together again (`merge_redirection_tokens` in `src/cowrie/shell/parser.py`)

* `Group`: the tokens that are glued together, two to four of them. `separator` is what the code's own list has
  (`|`, `;`, `&&`, `||`); an `&` is part of an operator here.
* `Starts`: a token and the next one that begin a group. `Settled`: no token of the list does.
* The table of digits is any that agrees with ASCII.

Results:
* `combineRedirSequence_group`: what one step glues.
* `Merges.groups`: the tokens, cut into groups and single tokens, are glued in each.
* `Merges.settled`: no token that is left, glued or not, begins a group with its neighbour.
* **`mergeRedirectionTokens_lossless`**: nothing is lost, nothing is glued across a separator, and merging again
  changes nothing.
-/

namespace Cowrie.Shell

variable {u : Digits} {toks : List String}

/-! ## Groups -/

/-- A pipe, or what ends a command. -/
def separator (tok : String) : Bool := endsRedir (some tok)

/-- Tokens that are glued together. -/
inductive Group (u : Digits) : List String → Prop
  | fd {tok op : String} (htok : isDigits u tok) (hop : op ∈ [">", ">>", ">&"]) : Group u [tok, op]
  | dup {tok target : String} (htok : isDigits u tok) (htarget : separator target = false) :
      Group u [tok, ">&", target]
  | ampersand {tok op : String} (htok : isDigits u tok) (hop : op ∈ [">", ">>"]) : Group u [tok, op, "&"]
  | ampersandTarget {tok op target : String} (htok : isDigits u tok) (hop : op ∈ [">", ">>"])
      (htarget : separator target = false) : Group u [tok, op, "&", target]
  | bare {op : String} (hop : op ∈ [">", ">>"]) : Group u [op, "&"]

/-- The token begins a group, before this one. -/
def Starts (u : Digits) (tok : String) (nxt : Option String) : Prop :=
  isDigits u tok ∧ nxt ∈ [some ">", some ">>", some ">&"] ∨ tok ∈ [">", ">>"] ∧ nxt = some "&"

theorem combineRedirSequence_none_iff {tok : String} {rest : List String} :
    combineRedirSequence u (tok :: rest) = none ↔ ¬ Starts u tok rest.head? := by
  unfold combineRedirSequence Starts
  rw [List.head?_eq_getElem?]
  simp only
  split_ifs <;> simp_all

theorem cons_of_first (rest : List String) {tok : String} (h : rest[0]? = some tok) :
    ∃ rest', rest = tok :: rest' := by
  cases rest with
  | nil => cases h
  | cons tok' rest' => exact ⟨rest', by rw [Option.some.inj h]⟩

theorem cons_of_first_mem {rest : List String} (ops : List String) (h : rest[0]? ∈ ops.map some) :
    ∃ nxt rest', rest = nxt :: rest' ∧ nxt ∈ ops := by
  obtain ⟨nxt, hnxt, hfirst⟩ := List.mem_map.mp h
  obtain ⟨rest', rfl⟩ := cons_of_first rest hfirst.symm
  exact ⟨nxt, rest', rfl, hnxt⟩

theorem some_of_endsRedir {tok : Option String} (h : endsRedir tok = false) :
    ∃ t, tok = some t ∧ separator t = false := by
  cases tok with
  | none => cases h
  | some t => exact ⟨t, rfl, h⟩

/-- **What one step glues** is the group that the tokens begin with. -/
theorem combineRedirSequence_group {combined : String} {consumed : Nat}
    (h : combineRedirSequence u toks = some (combined, consumed)) :
    ∃ group, Group u group ∧ group.length = consumed ∧ toks = group ++ toks.drop consumed ∧
      combined = String.join group := by
  obtain ⟨tok, rest, rfl⟩ : ∃ tok rest, toks = tok :: rest := by
    cases toks with
    | nil => cases h
    | cons tok rest => exact ⟨tok, rest, rfl⟩
  unfold combineRedirSequence at h
  simp only at h
  split_ifs at h with hdigits hdup hamp hlast hout
  · obtain ⟨rfl, rfl⟩ := Prod.mk.inj (Option.some.inj h)
    obtain ⟨rest, rfl⟩ := cons_of_first rest hdup.1
    obtain ⟨nxt2, hnxt2, hsep⟩ := some_of_endsRedir hdup.2
    obtain ⟨rest, rfl⟩ := cons_of_first rest hnxt2
    exact ⟨[tok, ">&", nxt2], .dup hdigits.1 hsep, rfl, rfl, by simp [String.join]⟩
  · obtain ⟨rfl, rfl⟩ := Prod.mk.inj (Option.some.inj h)
    obtain ⟨nxt, rest, rfl, hop⟩ := cons_of_first_mem [">", ">>"] hamp.1
    obtain ⟨rest, rfl⟩ := cons_of_first rest hamp.2
    obtain ⟨nxt3, hnxt3, hsep⟩ := some_of_endsRedir hlast
    obtain ⟨rest, rfl⟩ := cons_of_first rest hnxt3
    exact ⟨[tok, nxt, "&", nxt3], .ampersandTarget hdigits.1 hop hsep, rfl, rfl, by simp [String.join]⟩
  · obtain ⟨rfl, rfl⟩ := Prod.mk.inj (Option.some.inj h)
    obtain ⟨nxt, rest, rfl, hop⟩ := cons_of_first_mem [">", ">>"] hamp.1
    obtain ⟨rest, rfl⟩ := cons_of_first rest hamp.2
    exact ⟨[tok, nxt, "&"], .ampersand hdigits.1 hop, rfl, rfl, by simp [String.join]⟩
  · obtain ⟨rfl, rfl⟩ := Prod.mk.inj (Option.some.inj h)
    obtain ⟨nxt, rest, rfl, hop⟩ := cons_of_first_mem [">", ">>", ">&"] hdigits.2
    exact ⟨[tok, nxt], .fd hdigits.1 hop, rfl, rfl, by simp [String.join]⟩
  · obtain ⟨rfl, rfl⟩ := Prod.mk.inj (Option.some.inj h)
    obtain ⟨rest, rfl⟩ := cons_of_first rest hout.2
    exact ⟨[tok, "&"], .bare hout.1, rfl, rfl, by simp [String.join]⟩

/-! ## The loop -/

theorem mergeFrom_eq (skip : Nat) : mergeFrom u skip toks = mergeRedirectionTokens u (toks.drop skip) := by
  induction toks generalizing skip with
  | nil => cases skip <;> rfl
  | cons tok rest ih =>
    cases skip with
    | zero => rfl
    | succ skip => exact ih skip

/-- What the loop makes of its tokens. -/
inductive Merges (u : Digits) : List String → List String → Prop
  | nil : Merges u [] []
  | alone {tok : String} {rest out : List String} (h : ¬ Starts u tok rest.head?) (hrest : Merges u rest out) :
      Merges u (tok :: rest) (tok :: out)
  | glued {group rest out : List String} (h : Group u group) (hrest : Merges u rest out) :
      Merges u (group ++ rest) (String.join group :: out)

/-- By induction on the number of tokens that are left. -/
theorem merges_mergeRedirectionTokens (u : Digits) (toks : List String) :
    Merges u toks (mergeRedirectionTokens u toks) := by
  induction hlength : toks.length using Nat.strongRecOn generalizing toks with
  | ind n ih =>
    cases toks with
    | nil => exact .nil
    | cons tok rest =>
      unfold mergeRedirectionTokens mergeFrom
      cases hstep : combineRedirSequence u (tok :: rest) with
      | none =>
        have hrest := ih rest.length (by rw [← hlength, List.length_cons]; omega) rest rfl
        exact .alone (combineRedirSequence_none_iff.mp hstep) hrest
      | some glued =>
        obtain ⟨combined, consumed⟩ := glued
        obtain ⟨group, hgroup, hconsumed, hsplit, rfl⟩ := combineRedirSequence_group hstep
        obtain ⟨skip, rfl⟩ : ∃ skip, consumed = skip + 1 := by
          cases group with
          | nil => cases hgroup
          | cons _ group => exact ⟨group.length, hconsumed.symm⟩
        have hrest := ih (rest.drop skip).length
          (by rw [← hlength, List.length_drop, List.length_cons]; omega) (rest.drop skip) rfl
        rw [List.drop_succ_cons] at hsplit
        simp only [Nat.add_sub_cancel]
        rw [mergeFrom_eq, hsplit]
        exact .glued hgroup hrest

/-- **The tokens, cut into groups and single tokens**, are glued in each. -/
theorem Merges.groups {out : List String} (h : Merges u toks out) :
    ∃ groups : List (List String), groups.flatten = toks ∧ out = groups.map String.join ∧
      ∀ group ∈ groups, (∃ tok, group = [tok]) ∨ Group u group := by
  induction h with
  | nil => exact ⟨[], rfl, rfl, fun group hgroup => absurd hgroup List.not_mem_nil⟩
  | alone h hrest ih =>
    obtain ⟨groups, rfl, rfl, hgroups⟩ := ih
    refine ⟨[_] :: groups, rfl, by simp [String.join], fun group hgroup => ?_⟩
    rcases List.mem_cons.mp hgroup with rfl | hgroup
    · exact .inl ⟨_, rfl⟩
    · exact hgroups group hgroup
  | glued h hrest ih =>
    obtain ⟨groups, rfl, rfl, hgroups⟩ := ih
    refine ⟨_ :: groups, rfl, rfl, fun group hgroup => ?_⟩
    rcases List.mem_cons.mp hgroup with rfl | hgroup
    · exact .inr h
    · exact hgroups group hgroup

theorem join_flatten (groups : List (List String)) :
    String.join (groups.map String.join) = String.join groups.flatten := by
  induction groups with
  | nil => rfl
  | cons group groups ih => rw [List.map_cons, String.join_cons, ih, List.flatten_cons, String.join_append]

/-! ## What a group is glued to -/

/-- What a group becomes: it begins with a digit and goes on to a `>`, or is one of two operators. -/
theorem Group.join {group : List String} (h : Group u group) :
    (∃ c s, (String.join group).toList = c :: s ∧ u.isDigit c ∧ '>' ∈ s) ∨
      group = [">", "&"] ∨ group = [">>", "&"] := by
  have hnumber : ∀ (tok op : String) (rest : List String), isDigits u tok → op ∈ [">", ">>", ">&"] →
      ∃ c s, (String.join (tok :: op :: rest)).toList = c :: s ∧ u.isDigit c ∧ '>' ∈ s := by
    intro tok op rest htok hop
    unfold isDigits at htok
    rw [Bool.and_eq_true, decide_eq_true_eq, List.all_eq_true] at htok
    obtain ⟨c, s, hcs⟩ := List.exists_cons_of_ne_nil (fun hnil => htok.1 (String.toList_eq_nil_iff.mp hnil))
    rw [String.join_cons, String.join_cons, String.toList_append, hcs]
    refine ⟨c, s ++ (op ++ String.join rest).toList, rfl, htok.2 c (by simp [hcs]), ?_⟩
    have hgt : '>' ∈ op.toList := by
      simp only [List.mem_cons, List.not_mem_nil, or_false] at hop
      rcases hop with rfl | rfl | rfl <;> decide
    simp [hgt]
  cases h with
  | @fd tok op htok hop => exact .inl (hnumber tok op [] htok hop)
  | @dup tok target htok htarget => exact .inl (hnumber tok ">&" [target] htok (by decide))
  | @ampersand tok op htok hop => exact .inl (hnumber tok op ["&"] htok (List.mem_append_left [">&"] hop))
  | @ampersandTarget tok op target htok hop htarget =>
    exact .inl (hnumber tok op ["&", target] htok (List.mem_append_left [">&"] hop))
  | bare hop =>
    simp only [List.mem_cons, List.not_mem_nil, or_false] at hop
    rcases hop with rfl | rfl
    · exact .inr (.inl rfl)
    · exact .inr (.inr rfl)

section
variable (hascii : ∀ c : Char, c.toNat < 128 → u.isDigit c = c.isDigit)
include hascii

/-- A text with this character is no number. -/
theorem not_isDigits {tok : String} {c : Char} (hc : c ∈ tok.toList) (hlt : c.toNat < 128)
    (hnot : c.isDigit = false) : isDigits u tok = false := by
  unfold isDigits
  rw [Bool.and_eq_false_iff]
  refine .inr (List.all_eq_false.mpr ⟨c, hc, ?_⟩)
  rw [hascii c hlt, hnot]
  exact Bool.false_ne_true

theorem not_separator_of_isDigits {tok : String} (h : isDigits u tok) : separator tok = false := by
  by_contra hsep
  have hmem : some tok ∈ [none, some "|", some ";", some "&&", some "||"] :=
    of_decide_eq_true (eq_true_of_ne_false hsep)
  have hcontra : isDigits u tok = false := by
    simp only [List.mem_cons, List.not_mem_nil, or_false, Option.some_inj, reduceCtorEq, false_or] at hmem
    rcases hmem with rfl | rfl | rfl | rfl
    · exact not_isDigits hascii (c := '|') (by decide) (by decide) (by decide)
    · exact not_isDigits hascii (c := ';') (by decide) (by decide) (by decide)
    · exact not_isDigits hascii (c := '&') (by decide) (by decide) (by decide)
    · exact not_isDigits hascii (c := '|') (by decide) (by decide) (by decide)
  rw [hcontra] at h
  cases h

/-- **Nothing is glued across a separator.** -/
theorem Group.not_separator {group : List String} (h : Group u group) : ∀ tok ∈ group, separator tok = false := by
  have hnumber : ∀ {tok : String}, isDigits u tok → separator tok = false := not_separator_of_isDigits hascii
  have hop : ∀ op ∈ [">", ">>", ">&", "&"], separator op = false := by decide
  have hfile : ∀ op ∈ [">", ">>"], separator op = false := fun op hmem =>
    hop op (List.mem_append_left [">&", "&"] hmem)
  have hamp : separator "&" = false := hop "&" (by decide)
  cases h with
  | fd htok hmid => simp [hnumber htok, hop _ (List.mem_append_left ["&"] hmid)]
  | dup htok htarget => simp [hnumber htok, hop ">&" (by decide), htarget]
  | ampersand htok hmid => simp [hnumber htok, hfile _ hmid, hamp]
  | ampersandTarget htok hmid htarget => simp [hnumber htok, hfile _ hmid, hamp, htarget]
  | bare hmid => simp [hfile _ hmid, hamp]

/-- A text that begins with a digit is no operator. -/
theorem not_operator {s : String} {c : Char} {rest : List Char} (hlist : s.toList = c :: rest) (hc : u.isDigit c) :
    s ∉ [">", ">>", ">&", "&"] := by
  intro hmem
  have hfirst : c = '>' ∨ c = '&' := by
    have hhead := congrArg List.head? hlist.symm
    simp only [List.mem_cons, List.not_mem_nil, or_false] at hmem
    rcases hmem with rfl | rfl | rfl | rfl
    · exact .inl (Option.some.inj hhead)
    · exact .inl (Option.some.inj hhead)
    · exact .inl (Option.some.inj hhead)
    · exact .inr (Option.some.inj hhead)
  rcases hfirst with rfl | rfl
  · rw [hascii '>' (by decide)] at hc
    cases hc
  · rw [hascii '&' (by decide)] at hc
    cases hc

/-- What a group becomes begins no other group. -/
theorem Group.not_starts {group : List String} (h : Group u group) (nxt : Option String) :
    ¬ Starts u (String.join group) nxt := by
  have hgt : ∀ tok : String, '>' ∈ tok.toList → isDigits u tok = false := fun tok hmem =>
    not_isDigits hascii hmem (by decide) (by decide)
  rintro (⟨hdigits, -⟩ | ⟨hmem, -⟩)
  · rcases h.join with ⟨c, s, hlist, -, hs⟩ | rfl | rfl
    · rw [hgt _ (hlist ▸ List.mem_cons_of_mem c hs)] at hdigits
      cases hdigits
    · rw [hgt _ (by decide)] at hdigits
      cases hdigits
    · rw [hgt _ (by decide)] at hdigits
      cases hdigits
  · rcases h.join with ⟨c, s, hlist, hc, -⟩ | rfl | rfl
    · exact not_operator hascii hlist hc (List.mem_append_left [">&", "&"] hmem)
    · exact absurd hmem (by decide)
    · exact absurd hmem (by decide)

/-- A token that begins no group with the next one begins none with what that is glued into. -/
theorem Group.not_starts_join {group rest : List String} (h : Group u group) {tok : String}
    (hstarts : ¬ Starts u tok (group ++ rest).head?) : ¬ Starts u tok (some (String.join group)) := by
  rintro (⟨hdigits, hmem⟩ | ⟨-, hamp⟩)
  · rcases h.join with ⟨c, s, hlist, hc, -⟩ | rfl | rfl
    · obtain ⟨op, hop, heq⟩ : ∃ op ∈ [">", ">>", ">&"], some op = some (String.join group) :=
        List.mem_map.mp hmem
      rw [Option.some.inj heq] at hop
      exact not_operator hascii hlist hc (List.mem_append_left ["&"] hop)
    · exact hstarts (.inl ⟨hdigits, List.mem_cons_self⟩)
    · exact hstarts (.inl ⟨hdigits, List.mem_cons_of_mem _ List.mem_cons_self⟩)
  · rcases h.join with ⟨c, s, hlist, hc, -⟩ | rfl | rfl
    · rw [Option.some.inj hamp] at hlist
      exact not_operator hascii hlist hc (by decide)
    · exact absurd hamp (by decide)
    · exact absurd hamp (by decide)

end

/-! ## Merging again -/

/-- No token begins a group with the next one. -/
def Settled (u : Digits) : List String → Prop
  | [] => True
  | tok :: rest => ¬ Starts u tok rest.head? ∧ Settled u rest

theorem merge_of_settled (h : Settled u toks) : mergeRedirectionTokens u toks = toks := by
  induction toks with
  | nil => rfl
  | cons tok rest ih =>
    unfold mergeRedirectionTokens mergeFrom
    rw [combineRedirSequence_none_iff.mpr h.1]
    exact congrArg (tok :: ·) (ih h.2)

theorem Merges.settled (hascii : ∀ c : Char, c.toNat < 128 → u.isDigit c = c.isDigit) {out : List String}
    (h : Merges u toks out) : Settled u out := by
  induction h with
  | nil => trivial
  | @alone tok rest out hstarts hrest ih =>
    refine ⟨?_, ih⟩
    cases hrest with
    | nil => exact hstarts
    | alone => exact hstarts
    | glued hgroup => exact hgroup.not_starts_join hascii hstarts
  | glued hgroup hrest ih => exact ⟨hgroup.not_starts hascii _, ih⟩

/-- **Merging redirections**: the text stays, separators stay apart, and merging again changes nothing. -/
theorem mergeRedirectionTokens_lossless (hascii : ∀ c : Char, c.toNat < 128 → u.isDigit c = c.isDigit)
    (toks : List String) :
    String.join (mergeRedirectionTokens u toks) = String.join toks ∧
      (∃ groups : List (List String), groups.flatten = toks ∧
        mergeRedirectionTokens u toks = groups.map String.join ∧
        ∀ group ∈ groups, group ≠ [] ∧ (1 < group.length → ∀ tok ∈ group, separator tok = false)) ∧
      mergeRedirectionTokens u (mergeRedirectionTokens u toks) = mergeRedirectionTokens u toks := by
  have hmerges := merges_mergeRedirectionTokens u toks
  obtain ⟨groups, hflatten, hmap, hgroups⟩ := hmerges.groups
  refine ⟨?_, ⟨groups, hflatten, hmap, fun group hgroup => ?_⟩, merge_of_settled (hmerges.settled hascii)⟩
  · rw [hmap, join_flatten, hflatten]
  · rcases hgroups group hgroup with ⟨tok, rfl⟩ | hglued
    · refine ⟨List.cons_ne_nil tok [], fun hlong => ?_⟩
      rw [List.length_singleton] at hlong
      omega
    · refine ⟨?_, fun _ => hglued.not_separator hascii⟩
      rintro rfl
      cases hglued

theorem mergeRedirectionTokens_pipe :
    String.join (mergeRedirectionTokens asciiDigits ["2", ">", "&", "|", "cat"]) =
        String.join ["2", ">", "&", "|", "cat"] ∧
      (∃ groups : List (List String), groups.flatten = ["2", ">", "&", "|", "cat"] ∧
        mergeRedirectionTokens asciiDigits ["2", ">", "&", "|", "cat"] = groups.map String.join ∧
        ∀ group ∈ groups, group ≠ [] ∧ (1 < group.length → ∀ tok ∈ group, separator tok = false)) ∧
      mergeRedirectionTokens asciiDigits (mergeRedirectionTokens asciiDigits ["2", ">", "&", "|", "cat"]) =
        mergeRedirectionTokens asciiDigits ["2", ">", "&", "|", "cat"] :=
  mergeRedirectionTokens_lossless (fun _ _ => rfl) ["2", ">", "&", "|", "cat"]

end Cowrie.Shell
