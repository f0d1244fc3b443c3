import Cowrie.SshProxy.Term
import Cowrie.TtyLog

/-!
# The names of the recordings (`src/cowrie/ssh_proxy/protocols/{term,exec_term}.py`)

`channel_closed` names a recording after `ttylog_inputhash` of it, which leaves out what is written as
`TYPE_OUTPUT`; a recording whose name exists already is deleted. `insults.py` writes the bytes of the
attacker as `TYPE_INPUT` and what the attacker is shown as `TYPE_OUTPUT`. `Term` has it the other way
round, and `ExecTerm` writes everything as `TYPE_OUTPUT`.

* `name_term`, `name_exec`: what the names are made of.
* **`deduplicated_iff`**: when two recordings have the same name exactly if the attacker sent the same.
-/

namespace Cowrie.SshProxy

open TtyLog

/-! ## The file of a recording -/

/-- The value of `direction`. -/
def TtyType.code : TtyType → Int
  | .input => typeInput
  | .output => typeOutput

/-- What the clock says at the start, at every write and at the end. -/
structure Clock where
  start : Stamp
  write : Nat → Stamp
  close : Stamp

structure Clock.Fits (c : Clock) : Prop where
  start : c.start.Fits
  write : ∀ i, (c.write i).Fits
  close : c.close.Fits

/-- The calls of `ttylog_write`, the first at the `i`-th reading of the clock. -/
def writesAt (clock : Clock) : Nat → List (TtyType × Bytes) → List Write
  | _, [] => []
  | i, (type, data) :: ws => ⟨type.code, clock.write i, data⟩ :: writesAt clock (i + 1) ws

/-- `shasum` in `channel_closed`. -/
def Recording.shasum (sha256 : Bytes → String) (clock : Clock) (r : Recording) : Option String := do
  ttylogInputhash sha256 (← session clock.start (writesAt clock 0 r.ttylog) clock.close)

/-- What is hashed. -/
def hashed (ws : List (TtyType × Bytes)) : Bytes :=
  (ws.filter fun w => w.1 ≠ .output).flatMap Prod.snd

theorem fits_writesAt {clock : Clock} (hclock : clock.Fits) {ws : List (TtyType × Bytes)}
    (h : ∀ w ∈ ws, w.2.length < 2 ^ 31) (i : Nat) : ∀ w ∈ writesAt clock i ws, w.Fits := by
  induction ws generalizing i with
  | nil => exact fun w hw => absurd hw List.not_mem_nil
  | cons w ws ih =>
    obtain ⟨hw, hws⟩ := List.forall_mem_cons.mp h
    have hcode : -2 ^ 31 ≤ w.1.code ∧ w.1.code < 2 ^ 31 := by cases w.1 <;> decide
    exact List.forall_mem_cons.mpr ⟨⟨hcode, hclock.write i, hw⟩, ih hws (i + 1)⟩

/-- The times do not matter. -/
theorem notOutput_writesAt (clock : Clock) (ws : List (TtyType × Bytes)) (i : Nat) :
    notOutput (writesAt clock i ws) = hashed ws := by
  unfold notOutput hashed
  induction ws generalizing i with
  | nil => rfl
  | cons w ws ih =>
    obtain ⟨type, data⟩ := w
    unfold writesAt
    rw [List.filter_cons, List.filter_cons]
    cases type with
    | input =>
      exact congrArg (data ++ ·) (ih (i + 1))
    | output => exact ih (i + 1)

theorem Recording.shasum_eq (sha256 : Bytes → String) {clock : Clock} {r : Recording}
    (hclock : clock.Fits) (h : ∀ w ∈ r.ttylog, w.2.length < 2 ^ 31) :
    r.shasum sha256 clock = some (sha256 (hashed r.ttylog)) := by
  obtain ⟨file, hfile, -, hhash⟩ :=
    ttylog_roundTrip sha256 hclock.start hclock.close (fits_writesAt hclock h 0)
  unfold Recording.shasum
  rw [hfile, Option.bind_eq_bind, Option.bind_some, hhash, notOutput_writesAt]

/-! ## The packets of a session -/

theorem loop_recording {turn : Term → Bytes → Term × Nat}
    (h : ∀ t data, (turn t data).1.recording = t.recording) (fuel : Nat) (t : Term) (data : Bytes) :
    (Term.loop turn fuel t data).recording = t.recording := by
  induction fuel generalizing t data with
  | zero => rfl
  | succ fuel ih =>
    unfold Term.loop
    split_ifs
    · rfl
    · rw [ih, h]

theorem recording_ite {c : Prop} [Decidable c] {x y : Term × Nat} {r : Recording}
    (hx : x.1.recording = r) (hy : y.1.recording = r) : (if c then x else y).1.recording = r := by
  split_ifs
  · exact hx
  · exact hy

theorem key_recording (t : Term) (data : Bytes) : (t.key data).1.recording = t.recording := by
  have hbackspace : t.backspace.recording = t.recording := by
    unfold Term.backspace
    split_ifs <;> rfl
  unfold Term.key
  simp only
  refine recording_ite rfl (recording_ite hbackspace (recording_ite rfl ?_))
  refine recording_ite rfl (recording_ite rfl (recording_ite rfl (recording_ite rfl ?_)))
  exact recording_ite rfl rfl

theorem redraw_recording (t : Term) (data : Bytes) : (t.redraw data).1.recording = t.recording := by
  unfold Term.redraw
  simp only
  refine recording_ite rfl (recording_ite rfl (recording_ite rfl (recording_ite rfl ?_)))
  exact recording_ite rfl (recording_ite rfl rfl)

/-- How `Term` records a packet. -/
def Parent.recordedAs : Parent → TtyType
  | .server => .output
  | .client => .input

/-- **What a packet adds to the recording.** -/
theorem parsePacket_recording (parent : Parent) (data : Bytes) (t : Term) :
    (t.parsePacket parent data).recording = t.recording.write parent.recordedAs data := by
  cases parent with
  | server =>
    have hloop := loop_recording key_recording data.length t data
    unfold Term.parsePacket
    simp only
    rw [hloop]
    rfl
  | client =>
    have hcompletion : (t.completion data).recording = t.recording := by
      unfold Term.completion
      split_ifs <;> rfl
    have hloop := loop_recording redraw_recording data.length (t.completion data) data
    unfold Term.parsePacket
    simp only
    split_ifs
    · simp only
      rw [hloop, hcompletion]
      rfl
    · rw [hcompletion]
      rfl

/-! ## Sessions -/

/-- The packets of a channel, in any order. -/
abbrev Packets := List (Parent × Bytes)

/-- A session that is recorded: a terminal, or one command. -/
inductive Recorded
  | term (channelId : Nat) (packets : Packets)
  | exec (channelId : Nat) (command : Bytes) (packets : Packets)

namespace Recorded

def packets : Recorded → Packets
  | term _ packets => packets
  | exec _ _ packets => packets

/-- What its packets leave. -/
def recording : Recorded → Recording
  | term channelId packets =>
    (packets.foldl (fun t p => t.parsePacket p.1 p.2)
      { channelId := channelId, recording := { ttylogEnabled := true } : Term }).recording
  | exec channelId command packets =>
    (packets.foldl (fun t p => t.parsePacket p.1 p.2)
      (ExecTerm.create channelId true command)).recording

/-- The name `channel_closed` gives the recording. -/
def name (sha256 : Bytes → String) (clock : Clock) (s : Recorded) : Option String :=
  s.recording.shasum sha256 clock

/-- The bytes that came from one side. -/
def side (parent : Parent) (packets : Packets) : Bytes :=
  (packets.filter fun p => p.1 = parent).flatMap Prod.snd

/-- What the attacker sent, the command included. -/
def sent : Recorded → Bytes × Bytes
  | term _ packets => ([], side .server packets)
  | exec _ command packets => (command, side .server packets)

/-- The backend answered the same. -/
def SameAnswers (s s' : Recorded) : Prop := side .client s.packets = side .client s'.packets

def SameKind : Recorded → Recorded → Prop
  | term _ _, term _ _ => True
  | exec _ _ _, exec _ _ _ => True
  | _, _ => False

/-- **The packets of a terminal are recorded in order.** -/
theorem foldl_term (packets : Packets) {t : Term} (h : t.recording.ttylogEnabled = true) :
    (packets.foldl (fun t p => t.parsePacket p.1 p.2) t).recording.ttylog =
      t.recording.ttylog ++ packets.map fun p => (p.1.recordedAs, p.2) := by
  induction packets generalizing t with
  | nil => rw [List.map_nil, List.append_nil]; rfl
  | cons p packets ih =>
    have hwrite : t.recording.write p.1.recordedAs p.2 =
        { t.recording with
          ttylogSize := t.recording.ttylogSize + p.2.length
          ttylog := t.recording.ttylog ++ [(p.1.recordedAs, p.2)] } := if_pos h
    have hstep := (parsePacket_recording p.1 p.2 t).trans hwrite
    rw [List.foldl_cons, ih (by rw [hstep]; exact h), hstep, List.map_cons, List.append_assoc]
    rfl

/-- Everything that crosses an exec channel is recorded as output. -/
theorem foldl_exec (packets : Packets) {t : ExecTerm} (h : t.recording.ttylogEnabled = true) :
    (packets.foldl (fun t p => t.parsePacket p.1 p.2) t).recording.ttylog =
      t.recording.ttylog ++ packets.map fun p => (.output, p.2) := by
  induction packets generalizing t with
  | nil => rw [List.map_nil, List.append_nil]; rfl
  | cons p packets ih =>
    have hwrite : (t.parsePacket p.1 p.2).recording =
        { t.recording with
          ttylogSize := t.recording.ttylogSize + p.2.length
          ttylog := t.recording.ttylog ++ [(.output, p.2)] } := if_pos h
    rw [List.foldl_cons, ih (by rw [hwrite]; exact h), hwrite, List.map_cons, List.append_assoc]
    rfl

theorem hashed_term (packets : Packets) :
    hashed (packets.map fun p => (p.1.recordedAs, p.2)) = side .client packets := by
  unfold hashed side
  induction packets with
  | nil => rfl
  | cons p packets ih =>
    obtain ⟨parent, data⟩ := p
    cases parent with
    | server => exact ih
    | client => exact congrArg (data ++ ·) ih

theorem hashed_exec (packets : Packets) :
    hashed (packets.map fun p => (TtyType.output, p.2)) = [] := by
  induction packets with
  | nil => rfl
  | cons p packets ih => exact ih

/-- Every packet fits into a record. -/
def Fits (s : Recorded) : Prop := ∀ p ∈ s.packets, p.2.length < 2 ^ 31

/-- **A terminal is named after what the backend sent.** -/
theorem name_term (sha256 : Bytes → String) {clock : Clock} (hclock : clock.Fits) {channelId : Nat}
    {packets : Packets} (h : (term channelId packets).Fits) :
    (term channelId packets).name sha256 clock = some (sha256 (side .client packets)) := by
  have hlog : (term channelId packets).recording.ttylog = packets.map fun p => (p.1.recordedAs, p.2) :=
    foldl_term packets rfl
  have hfits : ∀ w ∈ (term channelId packets).recording.ttylog, w.2.length < 2 ^ 31 := by
    rw [hlog]
    intro w hw
    obtain ⟨p, hp, rfl⟩ := List.mem_map.mp hw
    exact h p hp
  unfold name
  rw [Recording.shasum_eq sha256 hclock hfits, hlog, hashed_term]

/-- **All recordings of exec channels have one name.** -/
theorem name_exec (sha256 : Bytes → String) {clock : Clock} (hclock : clock.Fits) {channelId : Nat}
    {command : Bytes} {packets : Packets} (h : (exec channelId command packets).Fits) :
    (exec channelId command packets).name sha256 clock = some (sha256 []) := by
  have hlog : (exec channelId command packets).recording.ttylog = packets.map fun p => (.output, p.2) :=
    foldl_exec packets rfl
  have hfits : ∀ w ∈ (exec channelId command packets).recording.ttylog, w.2.length < 2 ^ 31 := by
    rw [hlog]
    intro w hw
    obtain ⟨p, hp, rfl⟩ := List.mem_map.mp hw
    exact h p hp
  unfold name
  rw [Recording.shasum_eq sha256 hclock hfits, hlog, hashed_exec]

/-- The second recording is deleted as a duplicate exactly if the attacker sent the same. -/
def Deduplicated (sha256 : Bytes → String) (clock clock' : Clock) (s s' : Recorded) : Prop :=
  s.name sha256 clock = s'.name sha256 clock' ↔ s.sent = s'.sent

/-- The answers of the backend tell two terminals apart as their input does; two commands are the
same anyway. -/
def ToldApart : Recorded → Recorded → Prop
  | s@(term _ _), s'@(term _ _) => SameAnswers s s' ↔ s.sent = s'.sent
  | s, s' => s.sent = s'.sent

/-- **When the recordings are de-duplicated by what the attacker sent.** -/
theorem deduplicated_iff {sha256 : Bytes → String} (hsha : Function.Injective sha256)
    {clock clock' : Clock} (hclock : clock.Fits) (hclock' : clock'.Fits) {s s' : Recorded}
    (hs : s.Fits) (hs' : s'.Fits) (hkind : SameKind s s') :
    Deduplicated sha256 clock clock' s s' ↔ ToldApart s s' := by
  unfold Deduplicated
  cases s with
  | term channelId packets =>
    cases s' with
    | exec => exact absurd hkind id
    | term channelId' packets' =>
      rw [name_term sha256 hclock hs, name_term sha256 hclock' hs', Option.some_inj, hsha.eq_iff]
      rfl
  | exec channelId command packets =>
    cases s' with
    | term => exact absurd hkind id
    | exec channelId' command' packets' =>
      rw [name_exec sha256 hclock hs, name_exec sha256 hclock' hs']
      exact ⟨fun h => h.mp rfl, fun h => ⟨fun _ => h, fun _ => rfl⟩⟩

/-- An injective function in the place of the digest: every byte as a character. -/
def sampleHash (b : Bytes) : String := String.ofList (b.map fun x => Char.ofNat x.toNat)

theorem sampleHash_injective : Function.Injective sampleHash := by
  have hchar : ∀ n : Fin 256, (Char.ofNat n.val).toNat = n.val := by decide +kernel
  have hbyte : Function.Injective fun x : UInt8 => Char.ofNat x.toNat := by
    intro x y h
    have hx := hchar ⟨x.toNat, x.toNat_lt⟩
    have hy := hchar ⟨y.toNat, y.toNat_lt⟩
    exact UInt8.toNat_inj.mp (hx.symm.trans ((congrArg Char.toNat h).trans hy))
  intro b b' h
  exact List.map_injective_iff.mpr hbyte (String.ofList_injective h)

def sampleClock : Clock := ⟨⟨0, 0⟩, fun _ => ⟨0, 0⟩, ⟨0, 0⟩⟩

theorem sampleClock_fits : sampleClock.Fits := by
  have hstamp : (⟨0, 0⟩ : Stamp).Fits := ⟨by decide, by decide⟩
  exact ⟨hstamp, fun _ => hstamp, hstamp⟩

/-- `id` typed twice, with the same answer. -/
theorem deduplicated_id :
    Deduplicated sampleHash sampleClock sampleClock
      (term 0 [(.server, encode "id"), (.client, encode "uid=0")])
      (term 1 [(.server, encode "i"), (.client, encode "uid"), (.server, encode "d"),
        (.client, encode "=0")]) := by
  have hfits : ∀ s : Recorded, s.packets.all (fun p => p.2.length < 2 ^ 31) → s.Fits :=
    fun s h p hp => of_decide_eq_true (List.all_eq_true.mp h p hp)
  refine (deduplicated_iff sampleHash_injective sampleClock_fits sampleClock_fits
    (hfits _ (by decide)) (hfits _ (by decide)) ?_).mpr ?_
  · exact trivial
  · exact iff_of_true (by unfold SameAnswers; decide) (by decide)

/-- `id` and `ls`, typed while the backend is silent: the second recording is deleted. -/
theorem deduplicated_violated :
    ¬ Deduplicated sampleHash sampleClock sampleClock (term 0 [(.server, encode "id")])
      (term 1 [(.server, encode "ls")]) := by
  intro h
  have hname : ∀ channelId packets, (∀ p ∈ packets, p.2.length < 2 ^ 31) →
      (term channelId packets).name sampleHash sampleClock = some (sampleHash (side .client packets)) :=
    fun _ _ => name_term sampleHash sampleClock_fits
  have hsame := h.mp (by rw [hname _ _ (by decide), hname _ _ (by decide)]; rfl)
  exact absurd hsame (by decide)

end Recorded

end Cowrie.SshProxy
