import Cowrie.Lib.Run
import Cowrie.SshProxy.Keystrokes

/-!
# The cursor (`src/cowrie/ssh_proxy/protocols/term.py:92-204`)

The attacker's keys keep `pointer` within `command` (`inLine_press`). What the backend answers to an arrow
up or down is replayed on the same pointer without a look at its bounds:

* `Draw` is one thing the backend draws, `draws` what a packet draws (`loop_redraw`).
* `DrawsFit p n ds`: from a cursor at `p` in a line of `n` bytes, no backspace is drawn at the beginning and
  neither an arrow to the right nor a bell at the end. `drawsFit_iff`: this is what keeps the cursor within
  the line in every turn.
* **`cursor_iff`**: packets that fit keep the cursor within the line.
-/

namespace Cowrie.SshProxy

open Lib

/-- The cursor is within the line. -/
def InLine (t : Term) : Prop := 0 ≤ t.pointer ∧ t.pointer ≤ t.command.length

instance (t : Term) : Decidable (InLine t) := inferInstanceAs (Decidable (_ ∧ _))

/-! ## The attacker's keys -/

theorem inLine_insert {t : Term} (h : InLine t) (b : UInt8) : InLine (t.insert [b]) := by
  obtain ⟨hpos, hle⟩ := h
  have hlength := length_insert t b
  constructor
  · change 0 ≤ t.pointer + 1
    omega
  · change t.pointer + 1 ≤ ((t.insert [b]).command.length : Int)
    omega

theorem inLine_backspace {t : Term} (h : InLine t) : InLine t.backspace := by
  obtain ⟨hpos, hle⟩ := h
  unfold Term.backspace
  by_cases hcursor : 0 < t.pointer
  · rw [if_pos hcursor]
    constructor
    · change 0 ≤ t.pointer - 1
      omega
    · change t.pointer - 1 ≤ ((sliceTo t.command (t.pointer - 1) ++ sliceFrom t.command t.pointer).length : Int)
      unfold sliceTo
      rw [if_pos (by omega), List.length_append, List.length_take]
      omega
  · rw [if_neg hcursor]
    exact ⟨hpos, hle⟩

theorem inLine_empty {t : Term} (hcommand : t.command = []) (hpointer : t.pointer = 0) : InLine t := by
  unfold InLine
  rw [hcommand, hpointer]
  exact ⟨le_rfl, le_rfl⟩

theorem inLine_press {t : Term} (h : InLine t) (k : Key) : InLine (t.press k) := by
  obtain ⟨hpos, hle⟩ := h
  cases k with
  | typed b => exact inLine_insert ⟨hpos, hle⟩ b
  | backspace => exact inLine_backspace ⟨hpos, hle⟩
  | submit => exact inLine_empty rfl rfl
  | interrupt => exact inLine_empty rfl rfl
  | home => exact ⟨le_rfl, Int.natCast_nonneg _⟩
  | toEnd => exact ⟨Int.natCast_nonneg _, le_rfl⟩
  | left =>
    unfold InLine
    change 0 ≤ (if t.pointer ≠ 0 then t.pointer - 1 else t.pointer) ∧
      (if t.pointer ≠ 0 then t.pointer - 1 else t.pointer) ≤ (t.command.length : Int)
    split_ifs <;> omega
  | right =>
    unfold InLine
    change 0 ≤ (if t.pointer ≠ t.command.length then t.pointer + 1 else t.pointer) ∧
      (if t.pointer ≠ t.command.length then t.pointer + 1 else t.pointer) ≤ (t.command.length : Int)
    split_ifs <;> omega
  | tab => exact ⟨hpos, hle⟩
  | history => exact ⟨hpos, hle⟩

theorem inLine_pressAll {t : Term} (h : InLine t) (ks : List Key) : InLine (t.pressAll ks) := by
  induction ks generalizing t with
  | nil => exact h
  | cons k ks ih => exact ih (inLine_press h k)

/-! ## What the backend draws -/

inductive Draw
  | back
  | clearToEnd
  | carriageReturn
  | right
  | bell
  | put (b : UInt8)
  deriving DecidableEq, Repr

/-- The first thing drawn, and what follows it. -/
def firstDraw (b : UInt8) (data : Bytes) : Draw × Bytes :=
  if b = 0x08 then (.back, data)
  else if b = 0x1b ∧ data.take 2 = [0x5b, 0x4b] then (.clearToEnd, data.drop 2)
  else if b = 0x0d then (.carriageReturn, data)
  else if b = 0x1b ∧ data.take 2 = [0x5b, 0x43] then (.right, data.drop 2)
  else if b = 0x07 then (.bell, data)
  else (.put b, data)

/-- What at most `fuel` bytes draw. -/
def drawsFrom : Nat → Bytes → List Draw
  | 0, _ => []
  | _, [] => []
  | fuel + 1, b :: data => (firstDraw b data).1 :: drawsFrom fuel (firstDraw b data).2

def draws (data : Bytes) : List Draw := drawsFrom data.length data

/-- What `Term` makes of it. -/
def Term.draw (t : Term) : Draw → Term
  | .back => { t with command := sliceTo t.command (-1), pointer := t.pointer - 1 }
  | .clearToEnd => { t with command := sliceTo t.command t.pointer }
  | .carriageReturn => { t with pointer := 0 }
  | .right => { t with pointer := t.pointer + 1 }
  | .bell => { t with pointer := t.pointer + 1 }
  | .put b => t.insert [b]

def Term.drawAll (t : Term) (ds : List Draw) : Term := ds.foldl draw t

theorem redraw_cons (t : Term) (b : UInt8) (data : Bytes) :
    t.redraw (b :: data) =
      if b = 0x08 then (t.draw .back, 1)
      else if b = 0x1b ∧ data.take 2 = [0x5b, 0x4b] then (t.draw .clearToEnd, 3)
      else if b = 0x0d then (t.draw .carriageReturn, 1)
      else if b = 0x1b ∧ data.take 2 = [0x5b, 0x43] then (t.draw .right, 3)
      else if b = 0x07 then (t.draw .bell, 1)
      else (t.draw (.put b), 1) := by
  unfold Term.redraw
  by_cases hback : b = 0x08
  · subst hback
    rfl
  by_cases hreturn : b = 0x0d
  · subst hreturn
    rfl
  by_cases hbell : b = 0x07
  · subst hbell
    rfl
  simp [hback, hreturn, hbell, Term.draw]

/-- **One turn of the loop draws one thing.** -/
theorem redraw_eq (t : Term) (b : UInt8) (data : Bytes) :
    (t.redraw (b :: data)).1 = t.draw (firstDraw b data).1 ∧
      (b :: data).drop (t.redraw (b :: data)).2 = (firstDraw b data).2 := by
  rw [redraw_cons]
  unfold firstDraw
  split_ifs <;> exact ⟨rfl, rfl⟩

theorem length_firstDraw (b : UInt8) (data : Bytes) : (firstDraw b data).2.length ≤ data.length := by
  unfold firstDraw
  split_ifs <;> simp

/-- More fuel than bytes draws nothing more. -/
theorem drawsFrom_congr {fuel fuel' : Nat} {data : Bytes} (h : data.length ≤ fuel) (h' : data.length ≤ fuel') :
    drawsFrom fuel data = drawsFrom fuel' data := by
  induction fuel generalizing fuel' data with
  | zero =>
    rw [List.length_eq_zero_iff.mp (Nat.le_zero.mp h)]
    cases fuel' <;> rfl
  | succ fuel ih =>
    cases data with
    | nil => cases fuel' <;> rfl
    | cons b data =>
      have hshorter := length_firstDraw b data
      rw [List.length_cons] at h h'
      obtain ⟨fuel', rfl⟩ : ∃ k, fuel' = k + 1 := ⟨fuel' - 1, by omega⟩
      have hfuel : (firstDraw b data).2.length ≤ fuel' := hshorter.trans (by omega)
      unfold drawsFrom
      rw [ih (hshorter.trans (by omega)) hfuel]

theorem draws_cons (b : UInt8) (data : Bytes) :
    draws (b :: data) = (firstDraw b data).1 :: draws (firstDraw b data).2 := by
  unfold draws
  rw [List.length_cons, drawsFrom, drawsFrom_congr (length_firstDraw b data) le_rfl]

/-- **After `n` turns the loop has drawn `n` things.** -/
theorem loop_redraw (n : Nat) (t : Term) (data : Bytes) :
    Term.loop Term.redraw n t data = t.drawAll ((draws data).take n) := by
  induction n generalizing t data with
  | zero => rfl
  | succ n ih =>
    cases data with
    | nil => rfl
    | cons b data =>
      obtain ⟨hdraw, hdrop⟩ := redraw_eq t b data
      unfold Term.loop
      rw [if_neg (List.cons_ne_nil b data), hdraw, hdrop, ih, draws_cons]
      rfl

/-! ## Room for what is drawn -/

/-- There is room for it, with the cursor at `p` in a line of `n` bytes. -/
def Room (p n : Nat) : Draw → Prop
  | .back => 0 < p
  | .right | .bell => p < n
  | .clearToEnd | .carriageReturn | .put _ => True

/-- Where the cursor is then, and how long the line is. -/
def moved (p n : Nat) : Draw → Nat × Nat
  | .back => (p - 1, n - 1)
  | .clearToEnd => (p, p)
  | .carriageReturn => (0, n)
  | .right | .bell => (p + 1, n)
  | .put _ => (p + 1, n + 1)

/-- There is room for all of it. -/
def DrawsFit : Nat → Nat → List Draw → Prop
  | _, _, [] => True
  | p, n, d :: ds => Room p n d ∧ DrawsFit (moved p n d).1 (moved p n d).2 ds

instance (p n : Nat) (d : Draw) : Decidable (Room p n d) := by
  cases d <;> unfold Room <;> infer_instance

instance DrawsFit.decidable : ∀ (p n : Nat) (ds : List Draw), Decidable (DrawsFit p n ds)
  | _, _, [] => isTrue trivial
  | p, n, d :: ds =>
    have := DrawsFit.decidable (moved p n d).1 (moved p n d).2 ds
    inferInstanceAs (Decidable (Room p n d ∧ DrawsFit (moved p n d).1 (moved p n d).2 ds))

/-- The cursor is at `p` in a line of `n` bytes. -/
structure At (t : Term) (p n : Nat) : Prop where
  pointer : t.pointer = p
  length : t.command.length = n
  le : p ≤ n

theorem At.inLine {t : Term} {p n : Nat} (h : At t p n) : InLine t := by
  have hle := h.le
  unfold InLine
  rw [h.pointer, h.length]
  omega

theorem InLine.at {t : Term} (h : InLine t) : At t t.pointer.toNat t.command.length := by
  obtain ⟨hpos, hle⟩ := h
  exact ⟨(Int.toNat_of_nonneg hpos).symm, rfl, by omega⟩

theorem draw_at {t : Term} {p n : Nat} (h : At t p n) {d : Draw} (hroom : Room p n d) :
    At (t.draw d) (moved p n d).1 (moved p n d).2 := by
  obtain ⟨hpointer, hlength, hle⟩ := h
  cases d with
  | back =>
    have hpos : 0 < p := hroom
    refine ⟨?_, ?_, ?_⟩
    · change t.pointer - 1 = ((p - 1 : Nat) : Int)
      omega
    · change (sliceTo t.command (-1)).length = n - 1
      unfold sliceTo
      simp [hlength]
    · change p - 1 ≤ n - 1
      omega
  | clearToEnd =>
    refine ⟨hpointer, ?_, le_rfl⟩
    change (sliceTo t.command t.pointer).length = p
    rw [hpointer, sliceTo_natCast, List.length_take, hlength]
    exact min_eq_left hle
  | carriageReturn => exact ⟨rfl, hlength, Nat.zero_le n⟩
  | right =>
    have hroom : p < n := hroom
    refine ⟨?_, hlength, hroom⟩
    change t.pointer + 1 = ((p + 1 : Nat) : Int)
    omega
  | bell =>
    have hroom : p < n := hroom
    refine ⟨?_, hlength, hroom⟩
    change t.pointer + 1 = ((p + 1 : Nat) : Int)
    omega
  | put b =>
    refine ⟨?_, ?_, Nat.succ_le_succ hle⟩
    · change t.pointer + 1 = ((p + 1 : Nat) : Int)
      omega
    · exact (length_insert t b).trans (congrArg (· + 1) hlength)

theorem room_of_inLine {t : Term} {p n : Nat} (h : At t p n) {d : Draw} (hinLine : InLine (t.draw d)) :
    Room p n d := by
  obtain ⟨hpointer, hlength, hle⟩ := h
  cases d with
  | back =>
    have hpos : 0 ≤ t.pointer - 1 := hinLine.1
    change 0 < p
    omega
  | right =>
    have hend : t.pointer + 1 ≤ (t.command.length : Int) := hinLine.2
    change p < n
    omega
  | bell =>
    have hend : t.pointer + 1 ≤ (t.command.length : Int) := hinLine.2
    change p < n
    omega
  | _ => exact trivial

/-- **The cursor stays within the line in every turn iff there is room for all that is drawn.** -/
theorem drawsFit_iff {t : Term} {p n : Nat} (h : At t p n) (ds : List Draw) :
    DrawsFit p n ds ↔ ∀ k, InLine (t.drawAll (ds.take k)) := by
  induction ds generalizing t p n with
  | nil =>
    refine iff_of_true trivial fun k => ?_
    rw [List.take_nil]
    exact h.inLine
  | cons d ds ih =>
    constructor
    · rintro ⟨hroom, hrest⟩ k
      cases k with
      | zero => exact h.inLine
      | succ k => exact (ih (draw_at h hroom)).mp hrest k
    · intro hall
      have hroom := room_of_inLine h (hall 1)
      exact ⟨hroom, (ih (draw_at h hroom)).mpr fun k => hall (k + 1)⟩

/-! ## Packets -/

/-- How long the line is when the backend's answer to a tab is in it. -/
def completedLength (t : Term) (data : Bytes) : Nat :=
  if t.tabPress ∧ ([0x0d] : Bytes).isPrefixOf data = false ∧ data ≠ [0x07] then
    t.command.length + data.length
  else t.command.length

/-- What the packet draws fits the line. -/
def PacketFits (t : Term) (e : Parent × Bytes) : Prop :=
  e.1 = .client → t.upArrow → DrawsFit t.pointer.toNat (completedLength t e.2) (draws e.2)

instance (t : Term) (e : Parent × Bytes) : Decidable (PacketFits t e) :=
  inferInstanceAs (Decidable (_ → _ → _))

/-- `parse_packet` as a step. -/
def Term.step (t : Term) (e : Parent × Bytes) : Option Term := some (t.parsePacket e.1 e.2)

/-- The terminal after `n` turns of the loop over a packet. -/
def Term.turns (t : Term) (e : Parent × Bytes) (n : Nat) : Term :=
  match e.1 with
  | .server => loop key n t e.2
  | .client => if t.upArrow then loop redraw n (t.completion e.2) e.2 else t.completion e.2

theorem completion_at {t : Term} (h : InLine t) (data : Bytes) :
    At (t.completion data) t.pointer.toNat (completedLength t data) := by
  obtain ⟨hpointer, -, hle⟩ := h.at
  unfold completedLength Term.completion
  by_cases htab : t.tabPress = true
  · rw [if_pos htab]
    by_cases hcompletes : ([0x0d] : Bytes).isPrefixOf data = false ∧ data ≠ [0x07]
    · have hbool : (!([0x0d] : Bytes).isPrefixOf data && data != [0x07]) = true := by simpa using hcompletes
      rw [if_pos hbool, if_pos ⟨htab, hcompletes⟩]
      exact ⟨hpointer, List.length_append, by omega⟩
    · have hbool : ¬ (!([0x0d] : Bytes).isPrefixOf data && data != [0x07]) = true := by simpa using hcompletes
      rw [if_neg hbool, if_neg (not_and_of_not_right _ hcompletes)]
      exact ⟨hpointer, rfl, hle⟩
  · rw [if_neg htab, if_neg (not_and_of_not_left _ htab)]
    exact ⟨hpointer, rfl, hle⟩

theorem upArrow_completion (t : Term) (data : Bytes) : (t.completion data).upArrow = t.upArrow := by
  unfold Term.completion
  split_ifs <;> rfl

/-- **A packet fits iff the cursor is within the line in every turn.** -/
theorem packetFits_iff {t : Term} (h : InLine t) (e : Parent × Bytes) :
    PacketFits t e ↔ ∀ n, InLine (t.turns e n) := by
  obtain ⟨parent, data⟩ := e
  cases parent with
  | server =>
    refine iff_of_true (fun hclient => by cases hclient) fun n => ?_
    change InLine (Term.loop Term.key n t data)
    induction n generalizing t data with
    | zero => exact h
    | succ n ih =>
      cases data with
      | nil => exact h
      | cons b data =>
        unfold Term.loop
        rw [if_neg (List.cons_ne_nil b data), (key_eq t b data).1]
        exact ih (inLine_press h _) _
  | client =>
    have hstart := completion_at h data
    by_cases hup : t.upArrow = true
    · have hturns : ∀ n, t.turns (.client, data) n = (t.completion data).drawAll ((draws data).take n) :=
        fun n => (if_pos hup).trans (loop_redraw n _ data)
      simp only [hturns]
      rw [← drawsFit_iff hstart]
      exact ⟨fun hfits => hfits rfl hup, fun hfits _ _ => hfits⟩
    · have hturns : ∀ n, t.turns (.client, data) n = t.completion data := fun n => if_neg hup
      simp only [hturns]
      exact iff_of_true (fun _ hup' => absurd hup' hup) fun _ => hstart.inLine

/-- The packet ends in the last turn. -/
theorem inLine_parsePacket {t : Term} {e : Parent × Bytes} (h : ∀ n, InLine (t.turns e n)) :
    InLine (t.parsePacket e.1 e.2) := by
  obtain ⟨parent, data⟩ := e
  have hlast := h data.length
  cases parent with
  | server => exact hlast
  | client =>
    change InLine (if t.upArrow = true then _ else _) at hlast
    unfold Term.parsePacket
    simp only [upArrow_completion]
    by_cases hup : t.upArrow = true
    · rw [if_pos hup] at hlast ⊢
      exact hlast
    · rw [if_neg hup] at hlast ⊢
      exact hlast

/-- **Packets that fit keep the cursor within the line**; no others keep it there in every turn. -/
theorem cursor_iff {t : Term} (h : InLine t) (es : List (Parent × Bytes)) :
    (StepsMeet Term.step PacketFits t es → StatesMeet Term.step InLine t es) ∧
      (StepsMeet Term.step PacketFits t es ↔
        StepsMeet Term.step (fun t e => ∀ n, InLine (t.turns e n)) t es) := by
  have hstep : ∀ s e u, InLine s → PacketFits s e → Term.step s e = some u → InLine u := by
    intro s e u hs he hu
    rw [← Option.some.inj hu]
    exact inLine_parsePacket ((packetFits_iff hs e).mp he)
  exact ⟨statesMeet_of_inv hstep h, stepsMeet_iff_of_inv hstep (fun s e hs => packetFits_iff hs e) h⟩

/-- Arrow up; the backend clears the line and draws `ls`. -/
theorem cursor_history :
    StatesMeet Term.step InLine newTerm
      [(.server, [0x1b, 0x5b, 0x41]), (.client, [0x0d, 0x1b, 0x5b, 0x4b, 0x6c, 0x73])] :=
  (cursor_iff (by decide) _).1 (by decide +kernel)

/-- Arrow up in an empty line; the backend answers with a backspace. -/
theorem cursor_violated :
    ¬ ∀ es, StatesMeet Term.step InLine newTerm es := fun h =>
  absurd (h [(.server, [0x1b, 0x5b, 0x41]), (.client, [0x08])]) (by decide +kernel)

end Cowrie.SshProxy
