import Cowrie.Shell.Shlex
import Mathlib.Algebra.GroupWithZero.Nat
import Mathlib.Tactic.SplitIfs

/-!
# The lexer, one character at a time

What one character does to the token under way is said once (`lexFrom_step`): tokens are finished, before those of
the rest, and another one is under way. All that is said of the tokens of a text follows by induction on the text.

* `next`, `after`: the state after a character, and after a text.
* `Tidy`: between tokens and in a comment there is no token under way. `Plain`: no character has been dropped.
* `chars_lexFrom_le`: every character of a token comes from the line. `plain_after`: if they are as many, none was
  dropped.
* `lexFrom_fails`: the lexer fails where a quotation or an escape is not finished.
* **`lexFrom_append`**: where the next text ends the token under way, the tokens of both are those of each.
  `lexFrom_blank`: so it is at a blank, if nothing was dropped before it.
-/

namespace Cowrie.Shell.Lexer

/-! ## Tokens -/

/-- The characters of the tokens. -/
def chars (l : Lexer) : Nat := (l.tokens.map fun tok => tok.toList.length).sum

/-- The tokens of `b` after those of `a`. -/
def andThen (a b : Lexer) : Lexer := ⟨a.tokens ++ b.tokens, b.fails⟩

@[simp] theorem chars_nil (fails : Bool) : (⟨[], fails⟩ : Lexer).chars = 0 := rfl

theorem chars_andThen (a b : Lexer) : (a.andThen b).chars = a.chars + b.chars := by
  simp [chars, andThen]

@[simp] theorem chars_emit (token : List Char) (quoted : Bool) (l : Lexer) :
    (emit token quoted l).chars = token.length + l.chars := by
  unfold emit
  split
  next h => rw [h.1, List.length_nil, Nat.zero_add]
  next => simp [chars]

theorem emit_andThen (token : List Char) (quoted : Bool) (a b : Lexer) :
    emit token quoted (a.andThen b) = (emit token quoted a).andThen b := by
  unfold emit
  split <;> rfl

theorem emit_fails (token : List Char) (quoted : Bool) (l : Lexer) : (emit token quoted l).fails = l.fails := by
  unfold emit
  split_ifs <;> rfl

/-- What a character adds to the tokens: finished ones, before those of the rest. -/
structure Adds (f : Lexer → Lexer) : Prop where
  andThen : ∀ a b, f (a.andThen b) = (f a).andThen b
  fails : ∀ a, (f a).fails = a.fails

theorem adds_id : Adds id := ⟨fun _ _ => rfl, fun _ => rfl⟩

theorem Adds.emit {f : Lexer → Lexer} (h : Adds f) (token : List Char) (quoted : Bool) :
    Adds fun l => emit token quoted (f l) where
  andThen a b := by rw [h.andThen, emit_andThen]
  fails a := by rw [emit_fails, h.fails]

theorem Adds.chars {f : Lexer → Lexer} (h : Adds f) (l : Lexer) :
    (f l).chars = (f ⟨[], false⟩).chars + l.chars := by
  have hnil : (⟨[], false⟩ : Lexer).andThen l = l := rfl
  rw [← chars_andThen, ← h.andThen, hnil]

/-! ## States -/

/-- What a state will add to the tokens besides the characters to come. -/
def State.owes : State → Nat
  | .escape (some _) => 1
  | _ => 0

/-- The state after a character. -/
def next : State → Char → State
  | .space, c => (start c).1
  | .comment, c => if c = '\n' then .space else .comment
  | .word, c =>
    if isWhitespace c then .space
    else if c = '#' then .comment
    else if isQuote c then .quote c
    else if c = '\\' then .escape none
    else if isWordChar c then .word
    else (start c).1
  | .punctuation, c =>
    if isWhitespace c then .space
    else if c = '#' then .comment
    else if isPunctuation c then .punctuation
    else (start c).1
  | .quote mark, c =>
    if c = mark then .word
    else if c = '\\' ∧ mark = '"' then .escape (some mark)
    else .quote mark
  | .escape none, _ => .word
  | .escape (some mark), _ => .quote mark

/-- The state after a text. -/
def after (state : State) (cs : List Char) : State := cs.foldl next state

/-- A quotation or an escape is under way. -/
def State.isOpen : State → Bool
  | .quote _ | .escape _ => true
  | _ => false

/-- Between tokens and in a comment there is no token under way. -/
def Tidy (state : State) (token : List Char) (quoted : Bool) : Prop :=
  state = .space ∨ state = .comment → token = [] ∧ quoted = false

/-- A state in which no character has been dropped. -/
def Plain (token : List Char) (quoted : Bool) : State → Prop
  | .space => token = [] ∧ quoted = false
  | .word | .punctuation => True
  | _ => False

/-- The text ends the token under way. -/
def Breaks (state : State) (cs : List Char) : Prop :=
  ∀ token quoted, Tidy state token quoted →
    lexFrom state token quoted cs = emit token quoted (lexFrom .space [] false cs)

theorem after_cons (state : State) (c : Char) (cs : List Char) :
    after state (c :: cs) = after (next state c) cs := rfl

variable {state : State} {token : List Char} {quoted : Bool}

theorem Plain.tidy (h : Plain token quoted state) : Tidy state token quoted := by
  rintro (rfl | rfl)
  · exact h
  · exact absurd h id

/-- Within a token there may be one under way. -/
theorem tidy_within (h : state ≠ .space ∧ state ≠ .comment) : Tidy state token quoted := by
  rintro (hspace | hcomment)
  · exact absurd hspace h.1
  · exact absurd hcomment h.2

theorem Plain.isOpen (h : Plain token quoted state) : state.isOpen = false := by
  cases state with
  | quote mark => exact absurd h id
  | escape back => exact absurd h id
  | _ => rfl

theorem Plain.owes (h : Plain token quoted state) : state.owes = 0 := by
  cases state with
  | quote mark => exact absurd h id
  | escape back => exact absurd h id
  | _ => rfl

/-! ## One character -/

/-- What may follow the first character of a token. -/
theorem lexFrom_space_cons (token : List Char) (quoted : Bool) (c : Char) (cs : List Char) :
    lexFrom .space token quoted (c :: cs) =
      if isWhitespace c then lexFrom .space [] false cs
      else if c = '#' then lexFrom .comment [] false cs
      else if c = '\\' then lexFrom (.escape none) [] false cs
      else if isWordChar c then lexFrom .word [c] false cs
      else if isPunctuation c then lexFrom .punctuation [c] false cs
      else if isQuote c then lexFrom (.quote c) [] false cs
      else emit [c] false (lexFrom .space [] false cs) := by
  conv_lhs => unfold lexFrom
  unfold start
  split_ifs <;> rfl

/-- A character that ends a word is looked at once more. -/
theorem lexFrom_word_cons (token : List Char) (quoted : Bool) (c : Char) (cs : List Char) :
    lexFrom .word token quoted (c :: cs) =
      if isWhitespace c then emit token quoted (lexFrom .space [] false cs)
      else if c = '#' then emit token quoted (lexFrom .comment [] false cs)
      else if isQuote c then lexFrom (.quote c) token quoted cs
      else if c = '\\' then lexFrom (.escape none) token quoted cs
      else if isWordChar c then lexFrom .word (c :: token) quoted cs
      else emit token quoted (lexFrom .space [] false (c :: cs)) := rfl

theorem lexFrom_punctuation_cons (token : List Char) (quoted : Bool) (c : Char) (cs : List Char) :
    lexFrom .punctuation token quoted (c :: cs) =
      if isWhitespace c then emit token quoted (lexFrom .space [] false cs)
      else if c = '#' then emit token quoted (lexFrom .comment [] false cs)
      else if isPunctuation c then lexFrom .punctuation (c :: token) quoted cs
      else emit token quoted (lexFrom .space [] false (c :: cs)) := rfl

/-- A character puts tokens before those of the rest (`f`), and another token is under way. With what is finished it
is longer by one character at most, and by none where a character is dropped. -/
structure Step (state : State) (token : List Char) (quoted : Bool) (c : Char) (f : Lexer → Lexer)
    (state' : State) (token' : List Char) (quoted' : Bool) : Prop where
  adds : Adds f
  tidy : Tidy state' token' quoted'
  rest : ∀ cs, lexFrom state token quoted (c :: cs) = f (lexFrom state' token' quoted' cs)
  length : (f ⟨[], false⟩).chars + token'.length + state'.owes ≤ token.length + 1 + state.owes
  plain : Plain token quoted state →
    Plain token' quoted' state' ∨ (f ⟨[], false⟩).chars + token'.length + state'.owes ≤ token.length

section
variable {c : Char} {f : Lexer → Lexer} {state' : State} {token' : List Char} {quoted' : Bool}

/-- No token is finished. -/
theorem Step.keep (htidy : Tidy state' token' quoted')
    (hrest : ∀ cs, lexFrom state token quoted (c :: cs) = lexFrom state' token' quoted' cs)
    (hlength : token'.length + state'.owes ≤ token.length + 1 + state.owes)
    (hplain : Plain token quoted state →
      Plain token' quoted' state' ∨ token'.length + state'.owes ≤ token.length) :
    Step state token quoted c id state' token' quoted' where
  adds := adds_id
  tidy := htidy
  rest := hrest
  length := by simpa using hlength
  plain h := by simpa using hplain h

/-- The token under way is finished. -/
theorem Step.finish (howes : state'.owes = 0)
    (hrest : ∀ cs, lexFrom state token quoted (c :: cs) = emit token quoted (lexFrom state' [] false cs)) :
    Step state token quoted c (emit token quoted) state' [] false where
  adds := adds_id.emit token quoted
  tidy _ := ⟨rfl, rfl⟩
  rest := hrest
  length := by
    rw [chars_emit, chars_nil, howes, List.length_nil]
    omega
  plain _ := by
    rw [chars_emit, chars_nil, howes, List.length_nil]
    exact .inr (Nat.le_refl _)

/-- The token under way is finished, and the character is the first one of the next. -/
theorem Step.again (h : Step .space [] false c f state' token' quoted')
    (hrest : ∀ cs, lexFrom state token quoted (c :: cs) = emit token quoted (lexFrom .space [] false (c :: cs))) :
    Step state token quoted c (fun l => emit token quoted (f l)) state' token' quoted' where
  adds := h.adds.emit token quoted
  tidy := h.tidy
  rest cs := by rw [hrest, h.rest]
  length := by
    have hlength : (f ⟨[], false⟩).chars + token'.length + state'.owes ≤ 1 := h.length
    rw [chars_emit]
    omega
  plain _ := by
    rw [chars_emit]
    rcases h.plain ⟨rfl, rfl⟩ with hplain | hlength
    · exact .inl hplain
    · rw [List.length_nil] at hlength
      exact .inr (by omega)

/-- The first character of a token. -/
theorem lexFrom_start (c : Char) : ∃ f token' quoted', Step .space [] false c f (start c).1 token' quoted' := by
  have hrest := lexFrom_space_cons [] false c
  unfold start
  split_ifs at hrest ⊢
  · exact ⟨id, [], false, .keep (fun _ => ⟨rfl, rfl⟩) hrest (by decide) fun _ => .inl ⟨rfl, rfl⟩⟩
  · exact ⟨id, [], false, .keep (fun _ => ⟨rfl, rfl⟩) hrest (by decide) fun _ => .inr (by decide)⟩
  · exact ⟨id, [], false, .keep (fun _ => ⟨rfl, rfl⟩) hrest (by decide) fun _ => .inr (by decide)⟩
  · exact ⟨id, [c], false, .keep (tidy_within (by simp)) hrest (Nat.le_refl 1) fun _ => .inl trivial⟩
  · exact ⟨id, [c], false, .keep (tidy_within (by simp)) hrest (Nat.le_refl 1) fun _ => .inl trivial⟩
  · exact ⟨id, [], false, .keep (fun _ => ⟨rfl, rfl⟩) hrest (Nat.zero_le 1) fun _ => .inr (Nat.le_refl 0)⟩
  · exact ⟨emit [c] false, [], false,
      { adds := adds_id.emit [c] false
        tidy := fun _ => ⟨rfl, rfl⟩
        rest := hrest
        length := by simp [State.owes]
        plain := fun _ => .inl ⟨rfl, rfl⟩ }⟩

/-- **One character.** -/
theorem lexFrom_step (htidy : Tidy state token quoted) (c : Char) :
    ∃ f token' quoted', Step state token quoted c f (next state c) token' quoted' := by
  obtain ⟨f, token₁, quoted₁, hstart⟩ := lexFrom_start c
  cases state with
  | space =>
    obtain ⟨rfl, rfl⟩ := htidy (.inl rfl)
    exact ⟨f, token₁, quoted₁, hstart⟩
  | comment =>
    obtain ⟨rfl, rfl⟩ := htidy (.inr rfl)
    have howes : (next .comment c).owes = 0 := by
      simp only [next]
      split_ifs <;> rfl
    exact ⟨id, [], false, .keep (fun _ => ⟨rfl, rfl⟩) (fun _ => rfl) (by rw [howes]; decide) fun h => absurd h id⟩
  | word =>
    have hrest := lexFrom_word_cons token quoted c
    simp only [next]
    split_ifs at hrest ⊢
    · exact ⟨_, [], false, .finish rfl hrest⟩
    · exact ⟨_, [], false, .finish rfl hrest⟩
    · exact ⟨id, token, quoted, .keep (tidy_within (by simp)) hrest (Nat.le_succ _) fun _ => .inr (Nat.le_refl _)⟩
    · exact ⟨id, token, quoted, .keep (tidy_within (by simp)) hrest (Nat.le_succ _) fun _ => .inr (Nat.le_refl _)⟩
    · exact ⟨id, c :: token, quoted, .keep (tidy_within (by simp)) hrest (Nat.le_refl _) fun _ => .inl trivial⟩
    · exact ⟨_, token₁, quoted₁, hstart.again hrest⟩
  | punctuation =>
    have hrest := lexFrom_punctuation_cons token quoted c
    simp only [next]
    split_ifs at hrest ⊢
    · exact ⟨_, [], false, .finish rfl hrest⟩
    · exact ⟨_, [], false, .finish rfl hrest⟩
    · exact ⟨id, c :: token, quoted, .keep (tidy_within (by simp)) hrest (Nat.le_refl _) fun _ => .inl trivial⟩
    · exact ⟨_, token₁, quoted₁, hstart.again hrest⟩
  | quote mark =>
    have hrest : ∀ cs, lexFrom (.quote mark) token quoted (c :: cs) =
        if c = mark then lexFrom .word token true cs
        else if c = '\\' ∧ mark = '"' then lexFrom (.escape (some mark)) token true cs
        else lexFrom (.quote mark) (c :: token) true cs := fun _ => rfl
    simp only [next]
    split_ifs at hrest ⊢
    · exact ⟨id, token, true, .keep (tidy_within (by simp)) hrest (Nat.le_succ _) fun h => absurd h id⟩
    · exact ⟨id, token, true, .keep (tidy_within (by simp)) hrest (Nat.le_refl _) fun h => absurd h id⟩
    · exact ⟨id, c :: token, true, .keep (tidy_within (by simp)) hrest (Nat.le_refl _) fun h => absurd h id⟩
  | escape back =>
    cases back with
    | none =>
      have htidy' : Tidy .word (c :: token) quoted := tidy_within (by simp)
      exact ⟨id, c :: token, quoted, .keep htidy' (fun _ => rfl) (Nat.le_refl _) fun h => absurd h id⟩
    | some mark =>
      have htidy' : ∀ token, Tidy (.quote mark) token quoted := fun _ => tidy_within (by simp)
      have hrest : ∀ cs, lexFrom (.escape (some mark)) token quoted (c :: cs) =
          if c = '\\' ∨ c = mark then lexFrom (.quote mark) (c :: token) quoted cs
          else lexFrom (.quote mark) (c :: '\\' :: token) quoted cs := fun _ => rfl
      split_ifs at hrest
      · exact ⟨id, c :: token, quoted, .keep (htidy' _) hrest (Nat.le_succ _) fun h => absurd h id⟩
      · exact ⟨id, c :: '\\' :: token, quoted, .keep (htidy' _) hrest (Nat.le_refl _) fun h => absurd h id⟩

end

/-! ## Texts -/

theorem lexFrom_nil (hopen : state.isOpen = false) (token : List Char) (quoted : Bool) :
    lexFrom state token quoted [] = emit token quoted ⟨[], false⟩ := by
  cases state with
  | quote mark => cases hopen
  | escape back => cases hopen
  | _ => rfl

/-- A quotation or an escape that is not finished. -/
theorem lexFrom_open (hopen : state.isOpen = true) (token : List Char) (quoted : Bool) :
    lexFrom state token quoted [] = ⟨[], true⟩ := by
  cases state with
  | quote mark => rfl
  | escape back => rfl
  | _ => cases hopen

/-- The lexer fails where a quotation or an escape is not finished. -/
theorem lexFrom_fails (htidy : Tidy state token quoted) (cs : List Char) :
    (lexFrom state token quoted cs).fails = (after state cs).isOpen := by
  induction cs generalizing state token quoted with
  | nil =>
    change _ = state.isOpen
    cases hopen : state.isOpen with
    | false => rw [lexFrom_nil hopen, emit_fails]
    | true => rw [lexFrom_open hopen]
  | cons c cs ih =>
    obtain ⟨f, token', quoted', hstep⟩ := lexFrom_step htidy c
    rw [hstep.rest, hstep.adds.fails, ih hstep.tidy, after_cons]

/-- **Every character of a token comes from the line.** -/
theorem chars_lexFrom_le (htidy : Tidy state token quoted) (cs : List Char) :
    (lexFrom state token quoted cs).chars ≤ token.length + cs.length + state.owes := by
  induction cs generalizing state token quoted with
  | nil =>
    cases hopen : state.isOpen with
    | false =>
      rw [lexFrom_nil hopen, chars_emit, chars_nil, List.length_nil]
      omega
    | true =>
      rw [lexFrom_open hopen]
      exact Nat.zero_le _
  | cons c cs ih =>
    obtain ⟨f, token', quoted', hstep⟩ := lexFrom_step htidy c
    have hrest := ih hstep.tidy
    have hlength := hstep.length
    rw [hstep.rest, hstep.adds.chars, List.length_cons]
    omega

/-- If the tokens have all the characters of the text, none was dropped. -/
theorem plain_after (hplain : Plain token quoted state) {cs : List Char}
    (h : (lexFrom state token quoted cs).chars = token.length + cs.length) :
    ∃ token' quoted', Plain token' quoted' (after state cs) := by
  induction cs generalizing state token quoted with
  | nil => exact ⟨token, quoted, hplain⟩
  | cons c cs ih =>
    obtain ⟨f, token', quoted', hstep⟩ := lexFrom_step hplain.tidy c
    have hrest := chars_lexFrom_le hstep.tidy cs
    have hlength := hstep.length
    have howes : state.owes = 0 := hplain.owes
    rw [hstep.rest, hstep.adds.chars, List.length_cons] at h
    rcases hstep.plain hplain with hnext | hdropped
    · have howes' := hnext.owes
      exact ih hnext (by omega)
    · omega

/-- **The tokens of two texts**, the second of which ends the token under way. -/
theorem lexFrom_append (htidy : Tidy state token quoted) {cs rest : List Char}
    (hopen : (after state cs).isOpen = false) (hbreaks : Breaks (after state cs) rest) :
    lexFrom state token quoted (cs ++ rest) =
      (lexFrom state token quoted cs).andThen (lexFrom .space [] false rest) := by
  induction cs generalizing state token quoted with
  | nil =>
    change state.isOpen = false at hopen
    have hbreak : lexFrom state token quoted rest = _ := hbreaks token quoted htidy
    rw [List.nil_append, hbreak, lexFrom_nil hopen, ← emit_andThen]
    rfl
  | cons c cs ih =>
    obtain ⟨f, token', quoted', hstep⟩ := lexFrom_step htidy c
    rw [List.cons_append, hstep.rest, hstep.rest, ih hstep.tidy hopen hbreaks, hstep.adds.andThen]

theorem breaks_blank (hplain : Plain token quoted state) (rest : List Char) : Breaks state (' ' :: rest) := by
  intro token' quoted' htidy
  cases state with
  | space =>
    obtain ⟨rfl, rfl⟩ := htidy (.inl rfl)
    rfl
  | word => rfl
  | punctuation => rfl
  | _ => exact absurd hplain id

/-- **A blank ends the tokens before it**, if these are all that was read. -/
theorem lexFrom_blank (hplain : Plain token quoted state) {cs : List Char}
    (h : (lexFrom state token quoted cs).chars = token.length + cs.length) (rest : List Char) :
    lexFrom state token quoted (cs ++ ' ' :: rest) =
      (lexFrom state token quoted cs).andThen (lexFrom .space [] false rest) := by
  obtain ⟨token', quoted', hafter⟩ := plain_after hplain h
  exact lexFrom_append hplain.tidy hafter.isOpen (breaks_blank hafter rest)

end Cowrie.Shell.Lexer
