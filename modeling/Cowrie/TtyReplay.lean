import Cowrie.TtyLog
import Mathlib.Data.List.Chain
import Mathlib.Data.List.Flatten

/-!
# Two renderers of a recording (`scripts/asciinema.py` and `scripts/playlog.py`)

Both read the records of a recording as `ttylog_inputhash` does and decide by the first record which direction they
show. `asciinema.py` decodes each record that it shows by itself; `playlog.py` prints the bytes, waits between them
and shows the commands of an exec session (`TYPE_INTERACT`) whatever the direction.

* Times are in microseconds; a stamp of `time.time()` has fewer than a million of them besides its seconds, which
  a `float` tells apart. `time.sleep` of a negative time is a `ValueError`.
* `asciinema`, `playlog` are the loops over the records, with the settings of `playlog.py` that are not about colours
  or files that still grow. `none` is the `UnicodeDecodeError` of `asciinema.py`.
* `castShown`, `playShown` are the writes that the two show, `Agree` says of a file that both render it and what they
  show is the same text, with the line ends of `asciinema.py`.

Results:
* `asciinema_writes`, `playlog_writes`: what the loops make of the writes of a session.
* **`agree_iff`**: the renderers agree on a session iff the time does not go back, every record of the first direction
  is text by itself, and a record that only `playlog.py` shows is empty.
-/

namespace Cowrie.TtyLog

/-! ## The two programs -/

/-- `float(sec) + float(usec) / 1000000`. -/
def Stamp.time (stamp : Stamp) : Int := 1000000 * stamp.sec + stamp.usec

/-- `data.replace(b"\n", b"\r\n")`. -/
def crlf (data : Bytes) : Bytes := data.flatMap fun x => if x = 10 then [13, 10] else [x]

/-- The variables of `playlog` in `asciinema.py`; `stdout` are the delays with the texts. -/
structure Cast where
  currtty : Int := 0
  prevtime : Int := 0
  prefdir : Int := 0
  sleeptime : Int := 0
  stdout : List (Int × String) := []
  deriving DecidableEq

/-- `playlog` of `asciinema.py`. -/
def asciinema (s : Cast) : List Record → Option Cast
  | [] => some s
  | r :: rs =>
    let s := if s.currtty = 0 then { s with currtty := r.header.tty } else s
    if r.header.tty = s.currtty ∧ r.header.op = opWrite then
      let s := if s.prefdir = 0 then { s with prefdir := r.header.direction } else s
      if r.header.direction = s.prefdir then
        let curtime := r.header.stamp.time
        let sleeptime := if s.prevtime ≠ 0 then curtime - s.prevtime else s.sleeptime
        match decode (crlf r.data) with
        | none => none
        | some data =>
          asciinema { s with prevtime := curtime, sleeptime, stdout := s.stdout ++ [(sleeptime, data)] } rs
      else asciinema s rs
    else if r.header.tty = s.currtty ∧ r.header.op = opClose then some s
    else asciinema s rs

/-- The settings of `playlog.py`. -/
structure PlaySettings where
  maxdelay : Int := 3000000
  inputOnly : Bool := false
  bothDirs : Bool := false

/-- The variables of `playlog` in `playlog.py`, and what it has printed. -/
structure Player where
  currtty : Int := 0
  prevtime : Int := 0
  prefdir : Int := 0
  stdout : Bytes := []
  deriving DecidableEq

/-- The direction that `playlog.py` prefers after a record of this one. -/
def preferred (settings : PlaySettings) (prefdir direction : Int) : Int :=
  if prefdir = 0 ∧ direction ≠ typeInteract then
    if settings.inputOnly then if direction = typeInput then typeOutput else typeInput
    else direction
  else prefdir

/-- `playlog` of `playlog.py`, and whether it raised an exception. -/
def playlog (settings : PlaySettings) (s : Player) : List Record → Player × Bool
  | [] => (s, false)
  | r :: rs =>
    let s := if s.currtty = 0 then { s with currtty := r.header.tty } else s
    if r.header.tty = s.currtty ∧ r.header.op = opWrite then
      let s := { s with prefdir := preferred settings s.prefdir r.header.direction }
      if r.header.direction = s.prefdir ∨ r.header.direction = typeInteract ∨ settings.bothDirs then
        let curtime := r.header.stamp.time
        let sleeptime := min (curtime - s.prevtime) settings.maxdelay
        if s.prevtime ≠ 0 ∧ 0 < settings.maxdelay ∧ sleeptime < 0 then (s, true)
        else playlog settings { s with prevtime := curtime, stdout := s.stdout ++ r.data } rs
      else playlog settings s rs
    else if r.header.tty = s.currtty ∧ r.header.op = opClose then (s, false)
    else playlog settings s rs

/-- The text of a cast. -/
def Cast.text (s : Cast) : String := String.join (s.stdout.map Prod.snd)

/-- Both render the file, and what they show is the same but for the line ends. -/
def Agree (file : Bytes) : Prop :=
  ∃ rs cast player, records file = some rs ∧ asciinema {} rs = some cast ∧ playlog {} {} rs = (player, false) ∧
    encode cast.text = crlf player.stdout

/-! ## What they show -/

/-- The first direction. -/
def castDirection (writes : List Write) : Int := (writes.head?.map Write.direction).getD 0

/-- The first direction that is not `TYPE_INTERACT`. -/
def playDirection (writes : List Write) : Int :=
  ((writes.find? fun w => w.direction ≠ typeInteract).map Write.direction).getD 0

/-- The writes that `asciinema.py` shows. -/
def castShown (writes : List Write) : List Write := writes.filter fun w => w.direction = castDirection writes

/-- The writes that `playlog.py` shows. -/
def playShown (writes : List Write) : List Write :=
  writes.filter fun w => w.direction = playDirection writes ∨ w.direction = typeInteract

/-- The stamps do not go back, except after a zero one. -/
def InOrder (times : List Int) : Prop := times.IsChain fun a b => a = 0 ∨ a ≤ b

/-- A write of the program: one of the three directions, and the stamp that is made of `time.time()`. -/
structure Write.Recorded (w : Write) : Prop where
  direction : w.direction ∈ [typeInput, typeOutput, typeInteract]
  sec : 0 ≤ w.stamp.sec ∧ w.stamp.sec < 2 ^ 32
  usec : 0 ≤ w.stamp.usec ∧ w.stamp.usec < 1000000
  length : w.data.length < 2 ^ 31

/-! ## The loops -/

theorem Write.Recorded.fits {w : Write} (h : w.Recorded) : w.Fits where
  direction := by
    have hdirection := h.direction
    simp only [typeInput, typeOutput, typeInteract, List.mem_cons, List.not_mem_nil, or_false] at hdirection
    omega
  stamp := ⟨h.sec, by have := h.usec; omega⟩
  length := h.length

theorem Write.Recorded.direction_ne_zero {w : Write} (h : w.Recorded) : w.direction ≠ 0 := by
  have hdirection := h.direction
  simp only [typeInput, typeOutput, typeInteract, List.mem_cons, List.not_mem_nil, or_false] at hdirection
  omega

/-- **`asciinema.py`, once it prefers a direction**: the texts of the writes in this direction, if each is one. -/
theorem asciinema_writes {s : Cast} (htty : s.currtty = 0) (hpref : s.prefdir ≠ 0) (writes : List Write)
    (close : Stamp) :
    (asciinema s (writes.map Write.record ++ [markRecord opClose close])).map Cast.text =
      ((writes.filter fun w => w.direction = s.prefdir).mapM fun w => decode (crlf w.data)).map fun texts =>
        s.text ++ String.join texts := by
  induction writes generalizing s with
  | nil =>
    obtain ⟨currtty, prevtime, prefdir, sleeptime, stdout⟩ := s
    obtain rfl := htty
    simp [asciinema, markRecord, opClose, opWrite]
  | cons w writes ih =>
    obtain ⟨currtty, prevtime, prefdir, sleeptime, stdout⟩ := s
    obtain rfl := htty
    rw [List.map_cons, List.cons_append]
    unfold asciinema
    simp only [Write.record, if_true, true_and]
    rw [if_neg hpref]
    by_cases hdirection : w.direction = prefdir
    · rw [if_pos hdirection, List.filter_cons_of_pos (by simpa using hdirection), List.mapM_cons]
      cases hdecode : decode (crlf w.data) with
      | none => rfl
      | some data =>
        refine (ih (s := ⟨0, w.stamp.time, prefdir, _, _⟩) rfl hpref).trans ?_
        simp only [Option.bind_eq_bind, Option.bind_some]
        cases (writes.filter fun w => w.direction = prefdir).mapM fun w => decode (crlf w.data) with
        | none => rfl
        | some texts =>
          refine congrArg some ?_
          unfold Cast.text
          simp [String.append_assoc]
    · rw [if_neg hdirection, List.filter_cons_of_neg (by simpa using hdirection)]
      exact ih rfl hpref

/-- **`asciinema.py` on the writes of a session**: the first direction is the one it prefers. -/
theorem asciinema_session {writes : List Write} (hwrites : ∀ w ∈ writes, w.direction ≠ 0) (start close : Stamp) :
    (asciinema {} (sessionRecords start writes close)).map Cast.text =
      ((castShown writes).mapM fun w => decode (crlf w.data)).map String.join := by
  have hopen : asciinema {} (sessionRecords start writes close) =
      asciinema {} (writes.map Write.record ++ [markRecord opClose close]) := by
    unfold sessionRecords
    rw [List.cons_append, asciinema]
    rfl
  rw [hopen]
  cases writes with
  | nil => rfl
  | cons w writes =>
    have hpref : asciinema {} ((w :: writes).map Write.record ++ [markRecord opClose close]) =
        asciinema { prefdir := w.direction } ((w :: writes).map Write.record ++ [markRecord opClose close]) := by
      have hne := hwrites w List.mem_cons_self
      rw [List.map_cons, List.cons_append, asciinema, asciinema]
      simp [Write.record, hne]
    rw [hpref, asciinema_writes rfl (hwrites w List.mem_cons_self)]
    have htext : Cast.text { prefdir := w.direction } = "" := String.join_nil
    simp only [htext, String.empty_append]
    rfl

/-- The direction that `playlog.py` comes to prefer. -/
def directionFrom (prefdir : Int) (writes : List Write) : Int :=
  if prefdir = 0 then playDirection writes else prefdir

theorem directionFrom_cons {w : Write} (hw : w.direction ≠ 0) (prefdir : Int) (writes : List Write) :
    directionFrom (preferred {} prefdir w.direction) writes = directionFrom prefdir (w :: writes) := by
  unfold directionFrom preferred playDirection
  by_cases hpref : prefdir = 0
  · by_cases hinteract : w.direction = typeInteract
    · simp [hpref, hinteract]
    · simp [hpref, hinteract, hw]
  · simp [hpref]

/-- A write is shown if it is in that direction. -/
theorem shown_iff {w : Write} (hw : w.direction ≠ 0) (prefdir : Int) (writes : List Write) :
    w.direction = preferred {} prefdir w.direction ∨ w.direction = typeInteract ↔
      w.direction = directionFrom prefdir (w :: writes) ∨ w.direction = typeInteract := by
  by_cases hinteract : w.direction = typeInteract
  · exact iff_of_true (Or.inr hinteract) (Or.inr hinteract)
  · refine or_congr_left ?_
    rw [← directionFrom_cons hw]
    unfold directionFrom
    rw [if_neg]
    unfold preferred
    by_cases hpref : prefdir = 0
    · simpa [hpref, hinteract] using hw
    · simp [hpref]

/-- **`playlog.py` on the writes of a session**: the data of those that it shows, as long as the time does not go
back. -/
theorem playlog_writes {writes : List Write} (hwrites : ∀ w ∈ writes, w.direction ≠ 0) {s : Player}
    (htty : s.currtty = 0) (close : Stamp) :
    let shown := writes.filter fun w => w.direction = directionFrom s.prefdir writes ∨ w.direction = typeInteract
    let played := playlog {} s (writes.map Write.record ++ [markRecord opClose close])
    (played.2 = false ↔ InOrder (s.prevtime :: shown.map fun w => w.stamp.time)) ∧
      (played.2 = false → played.1.stdout = s.stdout ++ shown.flatMap Write.data) := by
  induction writes generalizing s with
  | nil =>
    obtain ⟨currtty, prevtime, prefdir, stdout⟩ := s
    obtain rfl := htty
    simp [playlog, markRecord, opClose, opWrite, InOrder]
  | cons w writes ih =>
    obtain ⟨hw, hrest⟩ := List.forall_mem_cons.mp hwrites
    obtain ⟨currtty, prevtime, prefdir, stdout⟩ := s
    obtain rfl := htty
    have hnext := fun prevtime stdout =>
      ih hrest (s := ⟨0, prevtime, preferred {} prefdir w.direction, stdout⟩) rfl
    simp only [directionFrom_cons hw] at hnext
    simp only [List.map_cons, List.cons_append]
    unfold playlog
    simp only [Write.record, if_true, true_and, Bool.false_eq_true, or_false, shown_iff hw prefdir writes]
    by_cases hshown : w.direction = directionFrom prefdir (w :: writes) ∨ w.direction = typeInteract
    · rw [if_pos hshown, List.filter_cons_of_pos (by simpa using hshown), List.map_cons, List.flatMap_cons]
      unfold InOrder
      rw [List.isChain_cons_cons]
      by_cases hback : prevtime ≠ 0 ∧ 0 < (3000000 : Int) ∧ min (w.stamp.time - prevtime) 3000000 < 0
      · -- the time goes back
        rw [if_pos hback]
        have hraised : ¬(true = false) := by decide
        refine ⟨iff_of_false hraised ?_, fun hfalse => absurd hfalse hraised⟩
        omega
      · rw [if_neg hback]
        have hstep : prevtime = 0 ∨ prevtime ≤ w.stamp.time := by omega
        obtain ⟨hiff, hout⟩ := hnext w.stamp.time (stdout ++ w.data)
        exact ⟨hiff.trans (and_iff_right hstep).symm, fun h => (hout h).trans (List.append_assoc ..)⟩
    · rw [if_neg hshown, List.filter_cons_of_neg (by simpa using hshown)]
      exact hnext prevtime stdout

/-! ## The same text -/

theorem crlf_append (a b : Bytes) : crlf (a ++ b) = crlf a ++ crlf b := List.flatMap_append

/-- A line end comes with its return. -/
theorem head?_crlf (b : Bytes) : (crlf b).head? ≠ some 10 := by
  cases b with
  | nil => decide
  | cons x b =>
    unfold crlf
    rw [List.flatMap_cons]
    by_cases hx : x = 10
    · simp [hx]
    · simp [hx]

/-- The conversion of the line ends loses nothing. -/
theorem crlf_injective : Function.Injective crlf := by
  intro a
  induction a with
  | nil =>
    intro b h
    cases b with
    | nil => rfl
    | cons y b =>
      unfold crlf at h
      rw [List.flatMap_cons] at h
      split_ifs at h <;> cases h
  | cons x a ih =>
    intro b h
    cases b with
    | nil =>
      unfold crlf at h
      rw [List.flatMap_cons] at h
      split_ifs at h <;> cases h
    | cons y b =>
      change (if x = 10 then [13, 10] else [x]) ++ crlf a = (if y = 10 then [13, 10] else [y]) ++ crlf b at h
      by_cases hx : x = 10 <;> by_cases hy : y = 10
      · rw [if_pos hx, if_pos hy] at h
        rw [hx, hy, ih (List.append_cancel_left h)]
      · -- a return that is not before a line end
        rw [if_pos hx, if_neg hy] at h
        have htail : 10 :: crlf a = crlf b := (List.cons.inj h).2
        exact absurd (congrArg List.head? htail).symm (head?_crlf b)
      · rw [if_neg hx, if_pos hy] at h
        have htail : crlf a = 10 :: crlf b := (List.cons.inj h).2
        exact absurd (congrArg List.head? htail) (head?_crlf a)
      · rw [if_neg hx, if_neg hy] at h
        obtain ⟨rfl, htail⟩ := List.cons.inj h
        rw [ih htail]

/-- The texts of some writes, if each is one. -/
theorem mapM_decode (writes : List Write) :
    ((writes.mapM fun w => decode (crlf w.data)).isSome ↔ ∀ w ∈ writes, (decode (crlf w.data)).isSome) ∧
      ∀ texts, (writes.mapM fun w => decode (crlf w.data)) = some texts →
        encode (String.join texts) = crlf (writes.flatMap Write.data) := by
  induction writes with
  | nil =>
    refine ⟨by simp, fun texts h => ?_⟩
    obtain rfl : [] = texts := Option.some.inj h
    decide +kernel
  | cons w writes ih =>
    rw [List.mapM_cons, List.forall_mem_cons, ← ih.1]
    cases hdecode : decode (crlf w.data) with
    | none => simp
    | some text =>
      cases hrest : writes.mapM fun w => decode (crlf w.data) with
      | none => simp
      | some texts =>
        refine ⟨by simp, fun all h => ?_⟩
        obtain rfl := Option.some.inj h
        rw [String.join_cons, encode_append, encode_of_decode hdecode, ih.2 texts hrest, List.flatMap_cons,
          crlf_append]

/-- **More elements give the same text** iff those added give none. -/
theorem flatMap_filter_eq_iff {α : Type} {f : α → Bytes} {p q : α → Prop} [DecidablePred p] [DecidablePred q]
    {l : List α} (hpq : ∀ a ∈ l, p a → q a) :
    (l.filter p).flatMap f = (l.filter q).flatMap f ↔ ∀ a ∈ l.filter q, ¬p a → f a = [] := by
  induction l with
  | nil => simp
  | cons a l ih =>
    obtain ⟨ha, hrest⟩ := List.forall_mem_cons.mp hpq
    have ih := ih hrest
    by_cases hq : q a
    · have hadd : (a :: l).filter q = a :: l.filter q := List.filter_cons_of_pos (by simpa using hq)
      rw [hadd, List.flatMap_cons, List.forall_mem_cons]
      by_cases hp : p a
      · rw [List.filter_cons_of_pos (by simpa using hp), List.flatMap_cons, List.append_cancel_left_eq]
        exact ih.trans (and_iff_right fun hout => absurd hp hout).symm
      · -- an element that is added
        rw [List.filter_cons_of_neg (by simpa using hp)]
        constructor
        · intro h
          have hsame : l.filter p = (l.filter q).filter p := by
            rw [List.filter_filter]
            exact List.filter_congr fun b hb => by simpa using hrest b hb
          have hle : ((l.filter p).flatMap f).length ≤ ((l.filter q).flatMap f).length :=
            List.Sublist.length_le (List.Sublist.flatMap (hsame ▸ List.filter_sublist) f)
          have hnil : f a = [] := by
            have hlength := congrArg List.length h
            rw [List.length_append] at hlength
            exact List.length_eq_zero_iff.mp (by omega)
          rw [hnil, List.nil_append] at h
          exact ⟨fun _ => hnil, ih.mp h⟩
        · rintro ⟨hnil, hall⟩
          rw [hnil hp, List.nil_append]
          exact ih.mpr hall
    · have hp : ¬p a := fun h => hq (ha h)
      rw [List.filter_cons_of_neg (by simpa using hp), List.filter_cons_of_neg (by simpa using hq)]
      exact ih

/-! ## Agreement -/

/-- What `asciinema.py` shows, `playlog.py` shows. -/
theorem shown_of_castShown {writes : List Write} {w : Write} (h : w.direction = castDirection writes)
    (hw : w ∈ writes) : w.direction = playDirection writes ∨ w.direction = typeInteract := by
  cases writes with
  | nil => cases hw
  | cons first writes =>
    have hfirst : w.direction = first.direction := h
    by_cases hinteract : first.direction = typeInteract
    · exact Or.inr (hfirst.trans hinteract)
    · refine Or.inl (hfirst.trans ?_)
      unfold playDirection
      simp [hinteract]

/-- **The renderers agree on a session** iff the stamps of what `playlog.py` shows do not go back, what
`asciinema.py` shows is text record by record, and what only `playlog.py` shows is empty. -/
theorem agree_iff {start close : Stamp} {writes : List Write} (hstart : start.Fits) (hclose : close.Fits)
    (h : ∀ w ∈ writes, w.Recorded) :
    ∃ file, session start writes close = some file ∧
      (Agree file ↔ InOrder ((playShown writes).map fun w => w.stamp.time) ∧
        (∀ w ∈ castShown writes, (decode (crlf w.data)).isSome) ∧
        ∀ w ∈ playShown writes, w.direction ≠ castDirection writes → w.data = []) := by
  have hne : ∀ w ∈ writes, w.direction ≠ 0 := fun w hw => (h w hw).direction_ne_zero
  obtain ⟨file, hfile, hread⟩ := records_session hstart hclose fun w hw => (h w hw).fits
  refine ⟨file, hfile, ?_⟩
  have hcast := asciinema_session hne start close
  obtain ⟨hsome, htexts⟩ := mapM_decode (castShown writes)
  have hplay : playlog {} {} (sessionRecords start writes close) =
      playlog {} {} (writes.map Write.record ++ [markRecord opClose close]) := by
    unfold sessionRecords
    rw [List.cons_append, playlog]
    rfl
  obtain ⟨hraised, hout⟩ := playlog_writes hne (s := {}) rfl close
  have horder : InOrder (0 :: (playShown writes).map fun w => w.stamp.time) ↔
      InOrder ((playShown writes).map fun w => w.stamp.time) := by
    unfold InOrder
    cases (playShown writes).map fun w => w.stamp.time with
    | nil => simp
    | cons t times => simp
  have hempty : (castShown writes).flatMap Write.data = (playShown writes).flatMap Write.data ↔
      ∀ w ∈ playShown writes, w.direction ≠ castDirection writes → w.data = [] :=
    flatMap_filter_eq_iff fun w hw h => shown_of_castShown h hw
  rw [← horder, ← hsome, ← hempty]
  constructor
  · rintro ⟨rs, cast, player, hrs, hasciinema, hplaylog, htext⟩
    obtain rfl := Option.some.inj (hread.symm.trans hrs)
    rw [hplay] at hplaylog
    rw [hplaylog] at hraised hout
    rw [hasciinema] at hcast
    obtain ⟨texts, hmap, hjoin⟩ := Option.map_eq_some_iff.mp hcast.symm
    refine ⟨hraised.mp rfl, Option.isSome_iff_exists.mpr ⟨texts, hmap⟩, crlf_injective ?_⟩
    rw [← htexts texts hmap, hjoin, htext, hout rfl]
    rfl
  · rintro ⟨hinorder, hdecodes, hsame⟩
    obtain ⟨texts, hmap⟩ := Option.isSome_iff_exists.mp hdecodes
    rw [hmap] at hcast
    obtain ⟨cast, hasciinema, hjoin⟩ := Option.map_eq_some_iff.mp hcast
    have hfalse := hraised.mpr hinorder
    refine ⟨_, cast, _, hread, hasciinema, Prod.ext rfl (hplay ▸ hfalse), ?_⟩
    rw [hjoin, hplay, hout hfalse, htexts texts hmap, hsame]
    rfl

/-- The command of an exec session, and what it prints. -/
def execSession : List Write := [⟨typeInteract, ⟨1, 0⟩, encode "id"⟩, ⟨typeOutput, ⟨1, 5⟩, encode "uid=0"⟩]

theorem execSession_recorded : ∀ w ∈ execSession, w.Recorded := by
  unfold execSession
  simp only [List.forall_mem_cons, List.not_mem_nil, false_imp_iff, implies_true, and_true]
  exact ⟨⟨by decide, by decide, by decide, by decide⟩, ⟨by decide, by decide, by decide, by decide⟩⟩

/-- What `agree_iff` says of an exec session. -/
theorem agree_iff_execSession :
    ∃ file, session ⟨1, 0⟩ execSession ⟨2, 0⟩ = some file ∧
      (Agree file ↔ InOrder ((playShown execSession).map fun w => w.stamp.time) ∧
        (∀ w ∈ castShown execSession, (decode (crlf w.data)).isSome) ∧
        ∀ w ∈ playShown execSession, w.direction ≠ castDirection execSession → w.data = []) :=
  agree_iff ⟨by decide, by decide⟩ ⟨by decide, by decide⟩ execSession_recorded

/-- `asciinema.py` shows the command of an exec session and not what it prints. -/
theorem exec_output_not_shown : ∃ file, session ⟨1, 0⟩ execSession ⟨2, 0⟩ = some file ∧ ¬Agree file := by
  have hstart : Stamp.Fits ⟨1, 0⟩ := ⟨by decide, by decide⟩
  have hclose : Stamp.Fits ⟨2, 0⟩ := ⟨by decide, by decide⟩
  obtain ⟨file, hfile, hread⟩ := records_session hstart hclose fun w hw => (execSession_recorded w hw).fits
  refine ⟨file, hfile, ?_⟩
  rintro ⟨rs, cast, player, hrs, hasciinema, hplaylog, htext⟩
  obtain rfl := Option.some.inj (hread.symm.trans hrs)
  have hcast : asciinema {} (sessionRecords ⟨1, 0⟩ execSession ⟨2, 0⟩) = some ⟨0, 1000000, 3, 0, [(0, "id")]⟩ := by
    decide +kernel
  have hplayer : (playlog {} {} (sessionRecords ⟨1, 0⟩ execSession ⟨2, 0⟩)).1.stdout = encode "iduid=0" := by
    decide +kernel
  obtain rfl := Option.some.inj (hcast.symm.trans hasciinema)
  rw [hplaylog] at hplayer
  rw [hplayer] at htext
  exact absurd htext (by decide +kernel)

end Cowrie.TtyLog
