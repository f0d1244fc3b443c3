import Cowrie.Scalpel.HandleCommand
import Cowrie.Shell.Tokens

/-!
# Chains of commands

`Chain cs ws` says that a text is made of the commands `ws`, with separators between them that both the router and the
shell's lexer see; `Gap rest cs seps` that `cs` has the separators `seps` and blanks, up to `rest`.

* `breaks_of_closes`: what ends the token under way (`Lexer.Breaks`).
* **`Chain.lexFrom`**: the tokens of a chain are those of its commands, with the separators between them.
* **`Chain.visible`**: its commands are what the router splits it into.
-/

namespace Cowrie.Shell.Lexer

/-! ## What ends a token -/

/-- The text ends the token under way, and the comment if there is one: a line feed ends it, and blanks are lost in
it. -/
def Closes : State → List Char → Prop
  | .space, _ | .word, _ => True
  | .punctuation, cs => ∀ c ∈ cs.head?, isWhitespace c
  | .comment, cs =>
    (∃ blanks rest, cs = blanks ++ '\n' :: rest ∧ ∀ c ∈ blanks, isWhitespace c) ∨ ∀ c ∈ cs, isWhitespace c
  | .quote _, _ | .escape _, _ => False

theorem Closes.isOpen {state : State} {cs : List Char} (h : Closes state cs) : state.isOpen = false := by
  cases state with
  | quote mark => exact absurd h id
  | escape back => exact absurd h id
  | _ => rfl

theorem lexFrom_space_blank {c : Char} (hc : isWhitespace c) (token : List Char) (quoted : Bool) (cs : List Char) :
    lexFrom .space token quoted (c :: cs) = lexFrom .space [] false cs := by
  rw [lexFrom_space_cons, if_pos hc]

/-- Blanks are skipped. -/
theorem lexFrom_space_blanks {blanks : List Char} (hblanks : ∀ c ∈ blanks, isWhitespace c) (cs : List Char) :
    lexFrom .space [] false (blanks ++ cs) = lexFrom .space [] false cs := by
  induction blanks with
  | nil => rfl
  | cons c blanks ih =>
    rw [List.cons_append, lexFrom_space_blank (hblanks c List.mem_cons_self),
      ih fun d hd => hblanks d (List.mem_cons_of_mem c hd)]

theorem lexFrom_comment_cons (token : List Char) (quoted : Bool) (c : Char) (cs : List Char) :
    lexFrom .comment token quoted (c :: cs) =
      if c = '\n' then lexFrom .space token quoted cs else lexFrom .comment token quoted cs := by
  rw [← apply_ite fun state => lexFrom state token quoted cs]
  rfl

/-- In a comment they are lost. -/
theorem lexFrom_comment_blanks {blanks : List Char} (hblanks : ∀ c ∈ blanks, isWhitespace c) :
    lexFrom .comment [] false blanks = ⟨[], false⟩ := by
  induction blanks with
  | nil => rfl
  | cons c blanks ih =>
    have hrest := fun d hd => hblanks d (List.mem_cons_of_mem c hd)
    have hspace := lexFrom_space_blanks hrest []
    rw [List.append_nil] at hspace
    rw [lexFrom_comment_cons]
    split_ifs
    · exact hspace
    · exact ih hrest

theorem lexFrom_comment_newline {blanks : List Char} (hblanks : ∀ c ∈ blanks, isWhitespace c) (cs : List Char) :
    lexFrom .comment [] false (blanks ++ '\n' :: cs) = lexFrom .space [] false cs := by
  induction blanks with
  | nil => rfl
  | cons c blanks ih =>
    have hrest := fun d hd => hblanks d (List.mem_cons_of_mem c hd)
    rw [List.cons_append, lexFrom_comment_cons]
    split_ifs
    · have hnewline : isWhitespace '\n' := by decide
      rw [lexFrom_space_blanks hrest, lexFrom_space_blank hnewline]
    · exact ih hrest

/-- A character that begins a separator. -/
def isSeparatorChar (c : Char) : Bool := c ∈ [';', '&', '|']

theorem breaks_of_closes {state : State} {cs : List Char} (h : Closes state cs)
    (hhead : ∀ c ∈ cs.head?, isWhitespace c ∨ isSeparatorChar c) : Breaks state cs := by
  intro token quoted htidy
  have hnil : ∀ l, emit [] false l = l := fun l => if_pos ⟨rfl, rfl⟩
  cases state with
  | space =>
    obtain ⟨rfl, rfl⟩ := htidy (.inl rfl)
    exact (hnil _).symm
  | word =>
    cases cs with
    | nil => rfl
    | cons c cs =>
      rw [lexFrom_word_cons]
      rcases hhead c rfl with hc | hc
      · rw [if_pos hc, lexFrom_space_blank hc]
      · have hnot : isWhitespace c = false ∧ c ≠ '#' ∧ isQuote c = false ∧ c ≠ '\\' ∧ isWordChar c = false := by
          have hmem : c ∈ [';', '&', '|'] := by simpa [isSeparatorChar] using hc
          simp only [List.mem_cons, List.not_mem_nil, or_false] at hmem
          rcases hmem with rfl | rfl | rfl <;> decide
        simp only [hnot, Bool.false_eq_true, if_false]
  | punctuation =>
    cases cs with
    | nil => rfl
    | cons c cs =>
      have hc : isWhitespace c := h c rfl
      rw [lexFrom_punctuation_cons, if_pos hc, lexFrom_space_blank hc]
  | comment =>
    obtain ⟨rfl, rfl⟩ := htidy (.inr rfl)
    rw [hnil]
    rcases h with ⟨blanks, rest, rfl, hblanks⟩ | hblanks
    · rw [lexFrom_comment_newline hblanks, lexFrom_space_blanks hblanks, lexFrom_space_blank (by decide)]
    · have hspace := lexFrom_space_blanks hblanks []
      rw [List.append_nil] at hspace
      rw [lexFrom_comment_blanks hblanks, hspace]
      rfl
  | quote mark => exact absurd h id
  | escape back => exact absurd h id

/-- A separator that stands apart is a token. -/
theorem lexFrom_separator {op : String} (hop : isSeparator op) {cs : List Char}
    (hcs : ∀ c ∈ cs.head?, isPunctuation c = false) :
    lexFrom .space [] false (op.toList ++ cs) = (⟨[op], false⟩ : Lexer).andThen (lexFrom .space [] false cs) := by
  have hend : ∀ token, lexFrom .punctuation token false cs = emit token false (lexFrom .space [] false cs) := by
    intro token
    cases cs with
    | nil => rfl
    | cons c cs =>
      rw [lexFrom_punctuation_cons, hcs c rfl]
      by_cases hc : isWhitespace c
      · rw [if_pos hc, lexFrom_space_blank hc]
      · by_cases hcomment : c = '#'
        · subst hcomment
          rfl
        · rw [if_neg hc, if_neg hcomment, if_neg Bool.false_ne_true]
  have hmem : op ∈ [";", "&&", "||"] := by simpa [isSeparator] using hop
  simp only [List.mem_cons, List.not_mem_nil, or_false] at hmem
  rcases hmem with rfl | rfl | rfl
  · exact hend [';']
  · exact hend ['&', '&']
  · exact hend ['|', '|']

end Cowrie.Shell.Lexer

namespace Cowrie.Scalpel

open Shell (isSeparator)
open Shell.Lexer

/-! ## Chains -/

/-- Up to `rest` there are blanks and separators, each of which stands apart from other punctuation. -/
inductive Gap (rest : List Char) : List Char → List String → Prop
  | done : Gap rest rest []
  | blank {c : Char} {cs : List Char} {seps : List String} (hc : isWhitespace c) (h : Gap rest cs seps) :
      Gap rest (c :: cs) seps
  | separator {op : String} {cs : List Char} {seps : List String} (hop : isSeparator op)
      (hapart : ∀ c ∈ cs.head?, isPunctuation c = false) (h : Gap rest cs seps) :
      Gap rest (op.toList ++ cs) (op :: seps)

/-- A command of a chain, before `cs`: the router does not split it, nothing is stripped from it, and its last token
ends where it ends. -/
structure Segment (w cs : List Char) : Prop where
  unsplit : Unsplit w
  stripped : w ≠ [] ∧ (∀ c ∈ w.head?, isBlank c = false) ∧ ∀ c ∈ w.getLast?, isBlank c = false
  closes : Closes (after .space w) cs
  apart : ∀ c ∈ w.getLast?, cs.head? = some c → c ≠ '&' ∧ c ≠ '|'

/-- **A chain and its commands.** Further separators between two commands are semicolons. -/
inductive Chain : List Char → List (List Char) → Prop
  | last {w cs : List Char} {seps : List String} (hw : Segment w cs) (hgap : Gap [] cs seps) : Chain (w ++ cs) [w]
  | cons {w cs rest : List Char} {op : String} {seps : List String} {ws : List (List Char)} (hw : Segment w cs)
      (hgap : Gap rest cs (op :: seps)) (hsemicolons : ∀ sep ∈ seps, sep = ";") (hrest : Chain rest ws) :
      Chain (w ++ cs) (w :: ws)

/-- The commands, in tokens, and the separators between them. -/
inductive Commands : List String → List (List String) → Prop
  | last {c seps : List String} (hseps : ∀ sep ∈ seps, isSeparator sep) : Commands (c ++ seps) [c]
  | cons {c seps toks : List String} {op : String} {cs : List (List String)} (hop : isSeparator op)
      (hsemicolons : ∀ sep ∈ seps, sep = ";") (hrest : Commands toks cs) :
      Commands (c ++ op :: (seps ++ toks)) (c :: cs)

/-- The tokens of a text. -/
def tokensOf (w : List Char) : List String := (lexFrom .space [] false w).tokens

variable {rest cs w : List Char} {seps : List String} {ws : List (List Char)}

/-- A command that does not begin or end with a blank. -/
theorem Segment.of_ends {c d : Char} (hfirst : w.head? = some c) (hlast : w.getLast? = some d) (hunsplit : Unsplit w)
    (hc : isBlank c = false) (hd : isBlank d = false) (hcloses : Closes (after .space w) cs)
    (hapart : d ≠ '&' ∧ d ≠ '|') : Segment w cs where
  unsplit := hunsplit
  stripped := by
    refine ⟨?_, ?_, ?_⟩
    · rintro rfl
      cases hfirst
    · rintro _ h
      obtain rfl := Option.some.inj (hfirst.symm.trans h)
      exact hc
    · rintro _ h
      obtain rfl := Option.some.inj (hlast.symm.trans h)
      exact hd
  closes := hcloses
  apart := by
    rintro _ h -
    obtain rfl := Option.some.inj (hlast.symm.trans h)
    exact hapart

/-! ## The tokens of a chain -/

theorem Gap.separators (h : Gap rest cs seps) : ∀ sep ∈ seps, isSeparator sep := by
  induction h with
  | done => exact fun _ hsep => absurd hsep List.not_mem_nil
  | blank _ _ ih => exact ih
  | separator hop _ _ ih => exact List.forall_mem_cons.mpr ⟨hop, ih⟩

theorem Gap.lexFrom (h : Gap rest cs seps) :
    lexFrom .space [] false cs = (⟨seps, false⟩ : Shell.Lexer).andThen (lexFrom .space [] false rest) := by
  induction h with
  | done => rfl
  | blank hc _ ih => rw [lexFrom_space_blank hc, ih]
  | separator hop hapart _ ih =>
    rw [lexFrom_separator hop hapart, ih]
    rfl

/-- A gap begins with a blank or a separator. -/
theorem Gap.head (h : Gap rest cs seps) (hrest : seps ≠ [] ∨ rest = []) :
    ∀ c ∈ cs.head?, isWhitespace c ∨ isSeparatorChar c := by
  cases h with
  | done =>
    rcases hrest with hseps | rfl
    · exact absurd rfl hseps
    · exact fun c hc => by cases hc
  | blank hc _ =>
    intro c hhead
    obtain rfl := Option.some.inj hhead
    exact .inl hc
  | @separator op cs seps hop _ _ =>
    have hmem : op ∈ [";", "&&", "||"] := by simpa [isSeparator] using hop
    intro c hhead
    right
    simp only [List.mem_cons, List.not_mem_nil, or_false] at hmem
    rcases hmem with rfl | rfl | rfl
    · obtain rfl := Option.some.inj hhead; decide
    · obtain rfl := Option.some.inj hhead; decide
    · obtain rfl := Option.some.inj hhead; decide

theorem Segment.lexFrom (hw : Segment w cs) (hhead : ∀ c ∈ cs.head?, isWhitespace c ∨ isSeparatorChar c) :
    (lexFrom .space [] false w).fails = false ∧
      Shell.Lexer.lexFrom .space [] false (w ++ cs) =
        (Shell.Lexer.lexFrom .space [] false w).andThen (Shell.Lexer.lexFrom .space [] false cs) := by
  have htidy : Tidy .space [] false := fun _ => ⟨rfl, rfl⟩
  exact ⟨(lexFrom_fails htidy w).trans hw.closes.isOpen,
    lexFrom_append htidy hw.closes.isOpen (breaks_of_closes hw.closes hhead)⟩

/-- **The tokens of a chain.** -/
theorem Chain.lexFrom (h : Chain cs ws) :
    Commands (tokensOf cs) (ws.map tokensOf) ∧ (Shell.Lexer.lexFrom .space [] false cs).fails = false ∧
      ∀ w ∈ ws, (Shell.Lexer.lexFrom .space [] false w).fails = false := by
  have hfails_nil : (Shell.Lexer.lexFrom .space [] false []) = ⟨[], false⟩ := rfl
  induction h with
  | @last w cs seps hw hgap =>
    obtain ⟨hfails, htokens⟩ := hw.lexFrom (hgap.head (.inr rfl))
    rw [hgap.lexFrom, hfails_nil] at htokens
    refine ⟨?_, by rw [htokens]; rfl, fun v hv => List.mem_singleton.mp hv ▸ hfails⟩
    unfold tokensOf
    rw [htokens]
    change Commands ((Shell.Lexer.lexFrom .space [] false w).tokens ++ (seps ++ [])) _
    rw [List.append_nil]
    exact .last hgap.separators
  | @cons w cs rest op seps ws hw hgap hsemicolons _ ih =>
    obtain ⟨hcommands, hrest, hws⟩ := ih
    obtain ⟨hfails, htokens⟩ := hw.lexFrom (hgap.head (.inl (List.cons_ne_nil _ _)))
    rw [hgap.lexFrom] at htokens
    refine ⟨?_, by rw [htokens]; exact hrest, List.forall_mem_cons.mpr ⟨hfails, hws⟩⟩
    unfold tokensOf
    rw [htokens]
    exact .cons (hgap.separators op List.mem_cons_self) hsemicolons hcommands

/-! ## What the router splits a chain into -/

theorem isBlank_of_isWhitespace {c : Char} (hc : isWhitespace c) : isBlank c := by
  have hmem : c ∈ [' ', '\t', '\r', '\n'] := by simpa [isWhitespace] using hc
  simp only [List.mem_cons, List.not_mem_nil, or_false] at hmem
  rcases hmem with rfl | rfl | rfl | rfl <;> decide

/-- The parts that are not blank. -/
def visible (cs : List Char) : List (List Char) := ((chainSplit cs).map strip).filter (· ≠ [])

theorem strip_cons {c : Char} (hc : isBlank c) (cs : List Char) : strip (c :: cs) = strip cs := by
  unfold strip
  rw [List.dropWhile_cons_of_pos hc]

theorem strip_blanks {blanks : List Char} (hblanks : ∀ c ∈ blanks, isBlank c) : strip blanks = [] := by
  induction blanks with
  | nil => rfl
  | cons c blanks ih =>
    rw [strip_cons (hblanks c List.mem_cons_self), ih fun d hd => hblanks d (List.mem_cons_of_mem c hd)]

theorem visible_separator {op : String} (hop : isSeparator op) (cs : List Char) :
    visible (op.toList ++ cs) = visible cs ∧ chainSplit (op.toList ++ cs) = [] :: chainSplit cs := by
  have hsplit : chainSplit (op.toList ++ cs) = [] :: chainSplit cs := by
    have hmem : op ∈ [";", "&&", "||"] := by simpa [isSeparator] using hop
    simp only [List.mem_cons, List.not_mem_nil, or_false] at hmem
    rcases hmem with rfl | rfl | rfl
    · exact chainSplit_cons ';' cs
    · exact chainSplit_cons '&' ('&' :: cs)
    · exact chainSplit_cons '|' ('|' :: cs)
  refine ⟨?_, hsplit⟩
  unfold visible
  rw [hsplit]
  rfl

/-- A blank is a line feed, or is not of a separator. -/
theorem chainSplit_blank {c : Char} (hc : isWhitespace c) (cs : List Char) :
    chainSplit (c :: cs) = if c = '\n' then [] :: chainSplit cs else (chainSplit cs).modifyHead (c :: ·) := by
  have hmem : c ∈ [' ', '\t', '\r', '\n'] := by simpa [isWhitespace] using hc
  simp only [List.mem_cons, List.not_mem_nil, or_false] at hmem
  rw [chainSplit_cons]
  rcases hmem with rfl | rfl | rfl | rfl <;> simp

theorem visible_blank {c : Char} (hc : isWhitespace c) (cs : List Char) : visible (c :: cs) = visible cs := by
  unfold visible
  rw [chainSplit_blank hc]
  split_ifs
  · rfl
  · obtain ⟨p, ps, hps⟩ := List.exists_cons_of_ne_nil (chainSplit_ne_nil cs)
    rw [hps, List.modifyHead_cons, List.map_cons, List.map_cons, strip_cons (isBlank_of_isWhitespace hc)]

theorem Gap.visible (h : Gap rest cs seps) : visible cs = Scalpel.visible rest := by
  induction h with
  | done => rfl
  | blank hc _ ih => rw [visible_blank hc, ih]
  | separator hop _ _ ih => rw [(visible_separator hop _).1, ih]

/-- Before a separator there are blanks only. -/
theorem Gap.blank_head (h : Gap rest cs seps) (hrest : seps ≠ [] ∨ rest = []) :
    ∃ blanks ps, chainSplit cs = blanks :: ps ∧ ∀ c ∈ blanks, isBlank c := by
  induction h with
  | done =>
    rcases hrest with hseps | rfl
    · exact absurd rfl hseps
    · exact ⟨[], [], rfl, fun c hc => absurd hc List.not_mem_nil⟩
  | @blank c cs seps hc _ ih =>
    obtain ⟨blanks, ps, hsplit, hblanks⟩ := ih hrest
    rw [chainSplit_blank hc, hsplit]
    split_ifs
    · exact ⟨[], _, rfl, fun c hc => absurd hc List.not_mem_nil⟩
    · exact ⟨c :: blanks, ps, rfl, List.forall_mem_cons.mpr ⟨isBlank_of_isWhitespace hc, hblanks⟩⟩
  | separator hop _ _ _ =>
    exact ⟨[], _, (visible_separator hop _).2, fun c hc => absurd hc List.not_mem_nil⟩

/-- A command is not split, also with what follows it. -/
theorem chainSplit_append (hunsplit : Unsplit w)
    (hapart : ∀ c ∈ w.getLast?, cs.head? = some c → c ≠ '&' ∧ c ≠ '|') :
    chainSplit (w ++ cs) = (chainSplit cs).modifyHead (w ++ ·) := by
  induction w with
  | nil => exact (congrFun List.modifyHead_id _).symm
  | cons c w ih =>
    obtain ⟨hsep, hboth, hrest⟩ := unsplit_cons.mp hunsplit
    have hnot : ¬ ((c = '&' ∨ c = '|') ∧ (w ++ cs).head? = some c) := by
      rintro ⟨hc, hhead⟩
      cases w with
      | nil =>
        obtain ⟨hamp, hbar⟩ := hapart c rfl hhead
        exact hc.elim hamp hbar
      | cons d w => exact hboth ⟨hc, hhead⟩
    have hlast : ∀ d ∈ w.getLast?, cs.head? = some d → d ≠ '&' ∧ d ≠ '|' := by
      intro d hd
      refine hapart d ?_
      cases w with
      | nil => cases hd
      | cons e w => exact hd
    rw [List.cons_append, chainSplit_cons, if_neg hsep, if_neg hnot, ih hrest hlast, List.modifyHead_modifyHead]
    rfl

theorem strip_segment (hne : w ≠ []) (hfirst : ∀ c ∈ w.head?, isBlank c = false)
    (hlast : ∀ c ∈ w.getLast?, isBlank c = false) {blanks : List Char} (hblanks : ∀ c ∈ blanks, isBlank c) :
    strip (w ++ blanks) = w := by
  obtain ⟨c, v, rfl⟩ := List.exists_cons_of_ne_nil hne
  have hfront : (c :: v ++ blanks).dropWhile isBlank = c :: v ++ blanks :=
    List.dropWhile_cons_of_neg (by rw [hfirst c rfl]; exact Bool.false_ne_true)
  have hback : (c :: v).rdropWhile isBlank = c :: v := by
    rw [List.rdropWhile_eq_self_iff]
    intro hl
    rw [hlast _ (List.getLast?_eq_some_getLast hl)]
    exact Bool.false_ne_true
  unfold strip
  rw [hfront]
  conv_rhs => rw [← hback]
  unfold List.rdropWhile
  rw [List.reverse_append, List.dropWhile_append_of_pos fun d hd => hblanks d (List.mem_reverse.mp hd)]

theorem Segment.visible (hw : Segment w cs)
    (hhead : ∃ blanks ps, chainSplit cs = blanks :: ps ∧ ∀ c ∈ blanks, isBlank c) :
    visible (w ++ cs) = w :: Scalpel.visible cs := by
  obtain ⟨blanks, ps, hsplit, hblanks⟩ := hhead
  obtain ⟨hne, hfirst, hlast⟩ := hw.stripped
  unfold Scalpel.visible
  rw [chainSplit_append hw.unsplit hw.apart, hsplit, List.modifyHead_cons, List.map_cons, List.map_cons,
    strip_segment hne hfirst hlast hblanks, strip_blanks hblanks]
  simp [hne]

/-- **The parts of a chain are its commands.** -/
theorem Chain.visible (h : Chain cs ws) : visible cs = ws := by
  induction h with
  | last hw hgap =>
    rw [hw.visible (hgap.blank_head (.inr rfl)), hgap.visible]
    rfl
  | cons hw hgap _ _ ih => rw [hw.visible (hgap.blank_head (.inl (List.cons_ne_nil _ _))), hgap.visible, ih]

end Cowrie.Scalpel
