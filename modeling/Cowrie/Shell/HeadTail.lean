import Cowrie.Shell.Filter

/-!
# `head` and `tail` (`src/cowrie/commands/fs.py:116-262`)

Both split the text at its line feeds, which gives one piece more than there are terminated lines; the last piece
is what follows the last line feed. `head` ends each of its pieces in a line feed. `tail` starts `n + 1` pieces before
the end; where there are only `n`, the index of the first is -1, which is that of the last piece.

* `headStart` and `tailStart` are `start`; `tail` keeps `self.n` from file to file.
* `firstLines` and `lastLines` are what is asked for.
* `prints_head`, `prints_tail`: what is written for `-n`.
* **`head_tail_lines_iff`**: when it is that.
-/

namespace Cowrie.Shell.Filter

open Cowrie.Lib Cowrie.Lib.Getopt Fs Heap HoneyPotFilesystem Redirect

/-! ## The commands -/

/-- The fields of `Command_head`. -/
structure Head where
  linecount : Nat := 10
  bytecount : Nat := 0

def headApplication (contents : Bytes) : FilterM Head Unit := do
  let s ← get
  if s.own.bytecount ≠ 0 then writeBytes (contents.take s.own.bytecount)
  else
    when (s.own.linecount ≠ 0) do
      writeAll (((contents.splitOn 10).take s.own.linecount).map (· ++ [10]))

def headGetFileContents (r : Reading) (filename : Str) : FilterM Head Unit :=
  tryCatch
    (do
      let contents ← r.fileContents filename
      headApplication contents)
    fun e =>
      if e = .fileNotFound then
        errorWrite ("head: cannot open `".toList ++ filename ++ "' for reading: No such file or directory\n".toList)
      else throw e

/-- One option of `head`. -/
def headOption (u : Digits) : OptionName × Str → FilterM Head Unit
  | (.short 'n', value) =>
    if isDigits u value then do
      let n ← intOf u value
      modify fun s => { s with own := { linecount := n, bytecount := 0 } }
    else errorWrite ("head: invalid number of lines: `".toList ++ value ++ "`\n".toList)
  | (.short 'c', value) =>
    if isDigits u value then do
      let n ← intOf u value
      modify fun s => { s with own := { linecount := 0, bytecount := n } }
    else errorWrite ("head: invalid number of bytes: `".toList ++ value ++ "`\n".toList)
  | _ => pure ()

def headStart (u : Digits) (r : Reading) (args : List Str) : FilterM Head Unit :=
  if args = [] ∨ args.head? = some ['>'] then pure ()
  else
    match getopt "c:n:".toList args with
    | .error opt => errorWrite ("head: invalid option -- '".toList ++ opt ++ "'\n".toList)
    | .ok (optlist, args) => do
      optlist.forM (headOption u)
      r.feed "head".toList (headGetFileContents r) headApplication args

/-- `contentsplit[j]`, counting from the end for a `j` below zero. -/
def pieceAt (contentsplit : List Bytes) (j : Int) : Bytes :=
  (contentsplit[(if j < 0 then j + contentsplit.length else j).toNat]?).getD []

/-- What the loop of `tail_application` writes in the turn `i`. -/
def tailTurn (contentsplit : List Bytes) (n i : Nat) : List Bytes :=
  pieceAt contentsplit ((contentsplit.length : Int) - n - 1 + i) :: if i < n then [[10]] else []

def tailApplication (contents : Bytes) : FilterM Nat Unit := do
  let contentsplit := contents.splitOn 10
  let lines := contentsplit.length
  modify fun s => { s with own := if lines < s.own then lines - 1 else s.own }
  let s ← get
  writeAll ((List.range (s.own + 1)).flatMap (tailTurn contentsplit s.own))

def tailGetContents (r : Reading) (filename : Str) : FilterM Nat Unit :=
  tryCatch
    (do
      let contents ← r.fileContents filename
      tailApplication contents)
    fun _ =>
      errorWrite ("tail: cannot open `".toList ++ filename ++ "' for reading: No such file or directory\n".toList)

/-- One option of `tail`. -/
def tailOption (u : Digits) : OptionName × Str → FilterM Nat Unit
  | (.short 'n', value) =>
    if isDigits u value then do
      let n ← intOf u value
      modify fun s => { s with own := n }
    else errorWrite ("tail: illegal offset -- ".toList ++ value ++ "\n".toList)
  | _ => pure ()

def tailStart (u : Digits) (r : Reading) (args : List Str) : FilterM Nat Unit :=
  if args = [] ∨ args.head? = some ['>'] then pure ()
  else
    match getopt "n:".toList args with
    | .error opt => errorWrite ("tail: invalid option -- '".toList ++ opt ++ "'\n".toList)
    | .ok (optlist, args) => do
      optlist.forM (tailOption u)
      r.feed "tail".toList (tailGetContents r) tailApplication args

/-! ## What is asked for -/

/-- The first `n` lines of the text, or all of them. -/
def firstLines (n : Nat) (contents : Bytes) : Bytes := ((lines 10 contents).take n).flatten

/-- The last `n` lines of the text, or all of them. -/
def lastLines (n : Nat) (contents : Bytes) : Bytes :=
  ((lines 10 contents).drop ((lines 10 contents).length - n)).flatten

/-! ## Pieces and lines -/

/-- What `head` writes for the text. -/
def headOutput (n : Nat) (contents : Bytes) : Bytes := (((contents.splitOn 10).take n).map (· ++ [10])).flatten

/-- What `tail` writes for the text. -/
def tailOutput (n : Nat) (contents : Bytes) : Bytes :=
  let contentsplit := contents.splitOn 10
  let n := if contentsplit.length < n then contentsplit.length - 1 else n
  ((List.range (n + 1)).flatMap (tailTurn contentsplit n)).flatten

variable {ws : List Bytes} {rest contents : Bytes} {n : Nat}

theorem headOutput_eq_firstLines_iff (n : Nat) (contents : Bytes) :
    headOutput n contents = firstLines n contents ↔ n ≤ contents.count 10 := by
  obtain ⟨ws, rest, h⟩ := exists_lined (10 : UInt8) contents
  unfold headOutput firstLines
  rw [h.splitOn, h.lines_eq, h.count]
  by_cases hn : n ≤ ws.length
  · have hmap : n ≤ (ws.map (· ++ [10])).length := by rwa [List.length_map]
    rw [List.take_append_of_le_length hn, List.take_append_of_le_length hmap, List.map_take]
    exact iff_of_true rfl hn
  · -- all lines, and a line feed behind them
    have hsplit : (ws ++ [rest]).length ≤ n := by
      rw [List.length_append, List.length_singleton]
      omega
    have hlines : (ws.map (· ++ [10]) ++ lastLine rest).length ≤ n := by
      have hlast : (lastLine rest).length ≤ 1 := by
        unfold lastLine
        split_ifs <;> simp
      rw [List.length_append, List.length_map]
      omega
    rw [List.take_of_length_le hsplit, List.take_of_length_le hlines, List.map_append, List.flatten_append,
      List.flatten_append, flatten_lastLine]
    refine iff_of_false (fun heq => ?_) hn
    have hlength := congrArg List.length heq
    simp at hlength

theorem pieceAt_natCast (contentsplit : List Bytes) (j : Nat) :
    pieceAt contentsplit j = (contentsplit[j]?).getD [] := by
  unfold pieceAt
  rw [if_neg (by omega), Int.toNat_natCast]

/-- The turns from a piece that exists on. -/
theorem flatten_tailTurns (ws : List Bytes) (rest : Bytes) {m : Nat} (hm : m ≤ ws.length) :
    ((List.range (m + 1)).flatMap (tailTurn (ws ++ [rest]) m)).flatten =
      (ws.drop (ws.length - m)).flatMap (· ++ [10]) ++ rest := by
  have hlength : (ws ++ [rest]).length = ws.length + 1 := by simp
  have hindex (i : Nat) : ((ws ++ [rest]).length : Int) - m - 1 + i = (ws.length - m + i : Nat) := by
    rw [hlength]
    omega
  have hlast : tailTurn (ws ++ [rest]) m m = [rest] := by
    unfold tailTurn
    rw [hindex, pieceAt_natCast, Nat.sub_add_cancel hm, List.getElem?_concat_length, if_neg (lt_irrefl m)]
    rfl
  have hturn (i : Nat) (hi : i < m) : (tailTurn (ws ++ [rest]) m i).flatten =
      ((ws[ws.length - m + i]?).getD []) ++ [10] := by
    unfold tailTurn
    rw [hindex, pieceAt_natCast, List.getElem?_append_left (by omega), if_pos hi]
    simp
  have hpieces : (List.range m).map (fun i => (ws[ws.length - m + i]?).getD []) = ws.drop (ws.length - m) := by
    refine List.ext_getElem (by simp; omega) fun i hi hi' => ?_
    have hlt : ws.length - m + i < ws.length := by
      rw [List.length_drop] at hi'
      omega
    rw [List.getElem_map, List.getElem_range, List.getElem_drop, List.getElem?_eq_getElem hlt]
    rfl
  rw [List.range_succ, List.flatMap_append, List.flatten_append, ← hpieces, List.flatMap_map]
  congr 1
  · rw [List.flatMap_def, List.flatMap_def, List.flatten_flatten, List.map_map]
    congr 1
    refine List.map_congr_left fun i hi => ?_
    exact hturn i (List.mem_range.mp hi)
  · simp [hlast]

/-- One turn too many: the last piece comes first. -/
theorem flatten_tailTurns_wrapped :
    ((List.range (ws.length + 2)).flatMap (tailTurn (ws ++ [rest]) (ws.length + 1))).flatten =
      rest ++ [10] ++ (ws.flatMap (· ++ [10]) ++ rest) := by
  have hlength : (ws ++ [rest]).length = ws.length + 1 := by simp
  have hfirst : tailTurn (ws ++ [rest]) (ws.length + 1) 0 = [rest, [10]] := by
    have hindex : ((ws ++ [rest]).length : Int) - (ws.length + 1 : Nat) - 1 + (0 : Nat) = -1 := by
      rw [hlength]
      omega
    unfold tailTurn pieceAt
    rw [hindex, if_pos (by decide), hlength, if_pos (Nat.succ_pos _)]
    simp
  have hlater (i : Nat) : tailTurn (ws ++ [rest]) (ws.length + 1) (i + 1) = tailTurn (ws ++ [rest]) ws.length i := by
    unfold tailTurn
    have hindex : ((ws ++ [rest]).length : Int) - (ws.length + 1 : Nat) - 1 + (i + 1 : Nat) =
        (ws ++ [rest]).length - (ws.length : Nat) - 1 + i := by omega
    rw [hindex]
    simp only [Nat.add_lt_add_iff_right]
  have hrest := flatten_tailTurns ws rest (le_refl ws.length)
  rw [Nat.sub_self, List.drop_zero] at hrest
  rw [List.range_succ_eq_map, List.flatMap_cons, List.flatMap_map, List.flatten_append, hfirst, ← hrest]
  simp only [hlater]
  simp

theorem tailOutput_eq_lastLines_iff (hn : 1 ≤ n) (contents : Bytes) :
    tailOutput n contents = lastLines n contents ↔
      contents.count 10 + 1 < n ∨ n ≤ contents.count 10 ∧ contents.getLast? = some 10 := by
  obtain ⟨ws, rest, h⟩ := exists_lined (10 : UInt8) contents
  have hends := h.ends_iff
  have hlength : (ws ++ [rest]).length = ws.length + 1 := by simp
  have hlast : (lastLine rest).length ≤ 1 := by
    unfold lastLine
    split_ifs <;> simp
  have hcount : (ws.map (· ++ [10]) ++ lastLine rest).length = ws.length + (lastLine rest).length := by
    rw [List.length_append, List.length_map]
  unfold tailOutput lastLines
  simp only [h.splitOn, h.lines_eq, h.count, hlength, hcount]
  rcases Nat.lt_trichotomy (ws.length + 1) n with hlt | heq | hgt
  · -- fewer pieces than `n`: all of them
    rw [if_pos hlt, Nat.add_sub_cancel, flatten_tailTurns ws rest (le_refl _), Nat.sub_self, List.drop_zero,
      Nat.sub_eq_zero_of_le (by omega), List.drop_zero, List.flatten_append, flatten_lastLine, ← List.flatMap_def]
    exact iff_of_true rfl (.inl hlt)
  · -- as many
    subst heq
    rw [if_neg (lt_irrefl _), flatten_tailTurns_wrapped, Nat.sub_eq_zero_of_le (by omega), List.drop_zero,
      List.flatten_append, flatten_lastLine, ← List.flatMap_def]
    refine iff_of_false (fun heq => ?_) (by omega)
    exact absurd (List.append_left_eq_self.mp heq) (by simp)
  · rw [if_neg (by omega), flatten_tailTurns ws rest (by omega)]
    by_cases hrest : rest = []
    · -- the last piece is empty
      subst hrest
      have hnil : lastLine ([] : Bytes) = [] := rfl
      have hne : contents ≠ [] := by
        rintro rfl
        have hzero := h.count
        rw [List.count_nil] at hzero
        omega
      obtain ⟨x, hx⟩ := Option.ne_none_iff_exists'.mp (mt List.getLast?_eq_none_iff.mp hne)
      rw [hnil, List.append_nil, List.append_nil, List.length_nil, Nat.add_zero, ← List.map_drop,
        ← List.flatMap_def, hx, hends.mpr rfl x hx]
      exact iff_of_true rfl (.inr ⟨by omega, rfl⟩)
    · -- one line more than is asked for
      have hone : lastLine rest = [rest] := if_neg hrest
      have hlt : ws.length - n < ws.length := by omega
      have hdrop : ws.drop (ws.length - n) = ws[ws.length - n] :: ws.drop (ws.length + 1 - n) := by
        rw [List.drop_eq_getElem_cons (by omega)]
        congr 2
        omega
      rw [hone, List.length_singleton, List.drop_append_of_le_length (by rw [List.length_map]; omega),
        ← List.map_drop, List.flatten_append, ← List.flatMap_def, hdrop, List.flatMap_cons]
      refine iff_of_false (fun heq => ?_) ?_
      · rw [List.flatten_singleton] at heq
        exact absurd (List.append_left_eq_self.mp (List.append_cancel_right heq)) (by simp)
      · rintro (hmore | ⟨-, hend⟩)
        · omega
        · exact hrest (hends.mp fun x hx => (Option.some.inj (hend.symm.trans hx)).symm)

/-! ## The runs -/

variable {r : Reading} {operands : List Str} {data : Bytes}

/-- `-n` and a number before the operands. -/
def invocation (n : Nat) (operands : List Str) : List Str := ['-', 'n'] :: decimal n :: operands

theorem getopt_invocation {shortopts : Str} (hopt : shortHasArg 'n' shortopts = some true) (n : Nat)
    (h : Gives r operands contents) :
    getopt shortopts (invocation n operands) = .ok ([(.short 'n', decimal n)], operands) := by
  unfold getopt invocation
  rw [scanOptions_pair hopt (by decide)]
  cases h with
  | piped hinput => rfl
  | file hinput harg hresolve hplain hcontents =>
    rw [scanOptions_operand harg]
    rfl

theorem invocation_runs (n : Nat) (operands : List Str) :
    ¬ (invocation n operands = [] ∨ (invocation n operands).head? = some ['>']) := by
  simp [invocation]

/-- The number is taken, and then the text is fed to the command. -/
theorem prints_feed {σ : Type} {own own' final : σ} {pieces : List Bytes} {option : OptionName × Str → FilterM σ Unit}
    {getContents : Str → FilterM σ Unit} {application : Bytes → FilterM σ Unit} {name : Str}
    (h : Gives r operands contents)
    (hoption : exec (option (.short 'n', decimal n)) ⟨own, []⟩ =
      if n < 10 ^ intMaxStrDigits then (.ok (), ⟨own', []⟩) else (.error .valueError, ⟨own, []⟩))
    (happ : exec (application contents) ⟨own', []⟩ = (.ok (), ⟨final, pieces.map .out⟩))
    (hget : ∀ pname, Redirect.fileContents r.cfg r.world pname = .ok contents →
      exec (getContents pname) ⟨own', []⟩ = exec (application contents) ⟨own', []⟩) :
    Prints (do
        [(.short 'n', decimal n)].forM option
        r.feed name getContents application operands) own data ↔
      n < 10 ^ intMaxStrDigits ∧ (if operands = [] ∧ contents = [] then [] else pieces.flatten) = data := by
  have hone : ([(.short 'n', decimal n)].forM option : FilterM σ Unit) =
      (option (.short 'n', decimal n) >>= fun _ => pure ⟨⟩) := rfl
  unfold Prints
  rw [hone]
  by_cases hn : n < 10 ^ intMaxStrDigits
  · rw [if_pos hn] at hoption
    rw [exec_bind_ok ((exec_bind_ok hoption).trans (exec_pure _ _)), exec_feed h name hget, happ]
    by_cases hnone : operands = [] ∧ contents = []
    · rw [if_pos hnone, if_pos hnone, and_iff_right hn]
      constructor
      · rintro ⟨s, hs, hdata⟩
        rw [← hdata, ← (Prod.mk.inj hs).2]
        rfl
      · intro hdata
        exact ⟨_, rfl, hdata⟩
    · rw [if_neg hnone, if_neg hnone, and_iff_right hn]
      constructor
      · rintro ⟨s, hs, hdata⟩
        rw [← hdata, ← (Prod.mk.inj hs).2, stdoutOf_out]
      · intro hdata
        exact ⟨_, rfl, by rw [stdoutOf_out, hdata]⟩
  · rw [if_neg hn] at hoption
    rw [exec_bind_error (exec_bind_error hoption)]
    refine iff_of_false ?_ fun hif => hn hif.1
    rintro ⟨s, hs, -⟩
    cases hs

theorem exec_headApplication (hn : 1 ≤ n) (contents : Bytes) :
    exec (headApplication contents) ⟨⟨n, 0⟩, []⟩ =
      (.ok (), ⟨⟨n, 0⟩, (((contents.splitOn 10).take n).map (· ++ [10])).map .out⟩) := by
  unfold headApplication
  rw [exec_get_bind, if_neg (by simp), when_true (by simpa using Nat.ne_of_gt hn), exec_writeAll]
  rfl

theorem headOption_lines (u : Digits) (value : Str) :
    headOption u (.short 'n', value) =
      if isDigits u value then do
        let n ← intOf u value
        modify fun s => { s with own := { linecount := n, bytecount := 0 } }
      else errorWrite ("head: invalid number of lines: `".toList ++ value ++ "`\n".toList) := rfl

/-- What `head -n` writes. -/
theorem prints_head (u : Digits) (hn : 1 ≤ n) (h : Gives r operands contents) :
    Prints (headStart u r (invocation n operands)) {} data ↔
      n < 10 ^ intMaxStrDigits ∧ (if operands = [] ∧ contents = [] then [] else headOutput n contents) = data := by
  unfold headStart
  rw [if_neg (invocation_runs n operands), getopt_invocation (by decide) n h]
  refine prints_feed h ?_ (exec_headApplication hn contents) fun pname hread => ?_
  · rw [headOption_lines, if_pos (isDigits_decimal u n), exec_bind, intOf_decimal]
    split_ifs <;> rfl
  · have hrun := exec_headApplication hn contents
    unfold headGetFileContents
    rw [exec_tryCatch_ok ((exec_bind_ok (exec_fileContents hread)).trans hrun), hrun]

theorem exec_tailApplication (n : Nat) (contents : Bytes) :
    exec (tailApplication contents) ⟨n, []⟩ =
      (.ok (), ⟨if (contents.splitOn 10).length < n then (contents.splitOn 10).length - 1 else n,
        ((List.range ((if (contents.splitOn 10).length < n then (contents.splitOn 10).length - 1 else n) + 1)).flatMap
          (tailTurn (contents.splitOn 10)
            (if (contents.splitOn 10).length < n then (contents.splitOn 10).length - 1 else n))).map .out⟩) := by
  unfold tailApplication
  rw [exec_modify_bind, exec_get_bind, exec_writeAll]
  rfl

theorem tailOption_lines (u : Digits) (value : Str) :
    tailOption u (.short 'n', value) =
      if isDigits u value then do
        let n ← intOf u value
        modify fun s => { s with own := n }
      else errorWrite ("tail: illegal offset -- ".toList ++ value ++ "\n".toList) := rfl

/-- What `tail -n` writes. -/
theorem prints_tail (u : Digits) (n : Nat) (h : Gives r operands contents) :
    Prints (tailStart u r (invocation n operands)) 10 data ↔
      n < 10 ^ intMaxStrDigits ∧ (if operands = [] ∧ contents = [] then [] else tailOutput n contents) = data := by
  unfold tailStart
  rw [if_neg (invocation_runs n operands), getopt_invocation (by decide) n h]
  refine prints_feed h ?_ (exec_tailApplication n contents) fun pname hread => ?_
  · rw [tailOption_lines, if_pos (isDigits_decimal u n), exec_bind, intOf_decimal]
    split_ifs <;> rfl
  · have hrun := exec_tailApplication n contents
    unfold tailGetContents
    rw [exec_tryCatch_ok ((exec_bind_ok (exec_fileContents hread)).trans hrun), hrun]

/-- **`head` and `tail` select whole lines** iff: `head`, when the text has as many line feeds as lines are asked
for; `tail`, when more lines are asked for than there are pieces, or no more than there are line feeds and the text
ends in one; both, when an empty text is piped in, since then they do not look at it. -/
theorem head_tail_lines_iff (u : Digits) (r : Reading) (n : Nat) (hn : 1 ≤ n) (operands : List Str)
    (contents : Bytes) (h : Gives r operands contents) :
    (Prints (headStart u r (invocation n operands)) {} (firstLines n contents) ↔
        n < 10 ^ intMaxStrDigits ∧ (n ≤ contents.count 10 ∨ operands = [] ∧ contents = [])) ∧
      (Prints (tailStart u r (invocation n operands)) 10 (lastLines n contents) ↔
        n < 10 ^ intMaxStrDigits ∧ (contents.count 10 + 1 < n ∨
          n ≤ contents.count 10 ∧ contents.getLast? = some 10 ∨ operands = [] ∧ contents = [])) := by
  rw [prints_head u hn h, prints_tail u n h]
  by_cases hnone : operands = [] ∧ contents = []
  · obtain ⟨rfl, rfl⟩ := hnone
    simp [firstLines, lastLines, lines]
  · simp [hnone, headOutput_eq_firstLines_iff, tailOutput_eq_lastLines_iff hn]

/-- `printf 'a\nb\n' | head -n 1`, and `tail -n 1`. -/
theorem head_tail_of_terminated :
    Prints (headStart asciiDigits (pipedIn [97, 10, 98, 10]) (invocation 1 [])) {} [97, 10] ∧
      Prints (tailStart asciiDigits (pipedIn [97, 10, 98, 10]) (invocation 1 [])) 10 [98, 10] := by
  have hboth := head_tail_lines_iff asciiDigits (pipedIn [97, 10, 98, 10]) 1 (le_refl 1) [] [97, 10, 98, 10]
    (gives_pipedIn _)
  have hdigits : 1 < 10 ^ intMaxStrDigits := Nat.one_lt_pow (by decide) (by decide)
  exact ⟨hboth.1.mpr ⟨hdigits, by decide⟩, hboth.2.mpr ⟨hdigits, by decide⟩⟩

/-- `printf 'a\nb' | head -n 2` ends in a line feed, and `tail -n 1` writes both lines; `tail -n 2` writes the last
one first. -/
theorem head_tail_of_open_end :
    ¬ Prints (headStart asciiDigits (pipedIn [97, 10, 98]) (invocation 2 [])) {} (firstLines 2 [97, 10, 98]) ∧
      ¬ Prints (tailStart asciiDigits (pipedIn [97, 10, 98]) (invocation 1 [])) 10 (lastLines 1 [97, 10, 98]) ∧
      Prints (tailStart asciiDigits (pipedIn [97, 10, 98]) (invocation 2 [])) 10 [98, 10, 97, 10, 98] := by
  have hdigits : 2 < 10 ^ intMaxStrDigits := Nat.lt_pow_self (by decide) |>.trans_le
    (Nat.pow_le_pow_right (by decide) (by decide : 2 ≤ intMaxStrDigits))
  refine ⟨?_, ?_, ?_⟩
  · rw [prints_head asciiDigits (by decide) (gives_pipedIn _)]
    exact fun h => absurd h.2 (by decide)
  · rw [prints_tail asciiDigits 1 (gives_pipedIn _)]
    exact fun h => absurd h.2 (by decide)
  · rw [prints_tail asciiDigits 2 (gives_pipedIn _)]
    exact ⟨hdigits, by decide⟩

end Cowrie.Shell.Filter
