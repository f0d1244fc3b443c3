import Cowrie.SshProxy.Editor
import Mathlib.Data.List.Find

/-!
# Keystrokes in packets (`src/cowrie/ssh_proxy/protocols/term.py:92-164`)

`Term.parse_packet` looks for the sequences of the arrow keys, home and end in the packet it was given
and keeps no unfinished one. What arrives is the same whole or in pieces as long as no piece ends within
a sequence.

* `Term.press` is what a key does; `loop_key`: the loop presses the `keys` of the packet, one by one.
* `Broken a b`: a sequence begins at the end of `a` and goes on in `b`. `keys_append`: otherwise the keys
  of both are those of the whole.
* `length_typed`, `command_sequence`: only what is typed makes the line longer, so that a broken sequence
  is seen (`length_broken`).
* **`keystrokes_iff`**: a stream and all its beginnings end alike whole and in packets iff no packet
  breaks a sequence.
-/

namespace Cowrie.SshProxy

/-! ## Keys -/

/-- What a key does to the terminal. -/
def Term.press (t : Term) : Key → Term
  | .typed b => t.insert [b]
  | .backspace => t.backspace
  | .submit => t.enter [0x0d]
  | .interrupt => t.enter [0x03]
  | .home => { t with pointer := 0 }
  | .toEnd => { t with pointer := t.command.length }
  | .left => { t with pointer := if t.pointer ≠ 0 then t.pointer - 1 else t.pointer }
  | .right => { t with pointer := if t.pointer ≠ t.command.length then t.pointer + 1 else t.pointer }
  | .tab => { t with tabPress := true }
  | .history => { t with upArrow := true }

/-- The keys one after the other. -/
def Term.pressAll (t : Term) (ks : List Key) : Term := ks.foldl press t

theorem pressAll_append (t : Term) (ks ls : List Key) :
    t.pressAll (ks ++ ls) = (t.pressAll ks).pressAll ls := List.foldl_append

theorem key_eq_byte (t : Term) {b : UInt8} (hb : b ≠ 0x1b) (data : Bytes) :
    t.key (b :: data) = (t.press (.ofByte b), 1) := by
  rw [key_byte t hb]
  unfold Key.ofByte
  by_cases htab : b = 0x09
  · simp only [if_pos htab]
    rfl
  by_cases hback : b = 0x08 ∨ b = 0x7f
  · simp only [if_neg htab, if_pos hback, if_pos hback.symm]
    rfl
  have hback' : ¬ (b = 0x7f ∨ b = 0x08) := fun h => hback h.symm
  by_cases hsubmit : b = 0x0a ∨ b = 0x0d
  · have henter : b = 0x0d ∨ b = 0x03 ∨ b = 0x0a := by tauto
    simp only [if_neg htab, if_neg hback, if_neg hback', if_pos hsubmit, if_pos henter]
    rcases hsubmit with rfl | rfl <;> rfl
  by_cases hctrl : b = 0x03
  · subst hctrl
    rfl
  have hnone : ¬ (b = 0x0d ∨ b = 0x03 ∨ b = 0x0a) := by tauto
  simp only [if_neg htab, if_neg hback, if_neg hback', if_neg hsubmit, if_neg hctrl, if_neg hnone]
  rfl

/-- **One turn of the loop presses one key.** -/
theorem key_eq (t : Term) (b : UInt8) (data : Bytes) :
    (t.key (b :: data)).1 = t.press (firstKey b data).1 ∧
      (b :: data).drop (t.key (b :: data)).2 = (firstKey b data).2 := by
  by_cases hb : b = 0x1b
  · subst hb
    rw [key_escape, firstKey_escape]
    by_cases hhome : data.take 2 = [0x4f, 0x48]
    · simp only [if_pos hhome]
      exact ⟨rfl, rfl⟩
    by_cases hend : data.take 2 = [0x4f, 0x46]
    · simp only [if_neg hhome, if_pos hend]
      exact ⟨rfl, rfl⟩
    by_cases hright : data.take 2 = [0x5b, 0x43]
    · simp only [if_neg hhome, if_neg hend, if_pos hright]
      exact ⟨rfl, rfl⟩
    by_cases hleft : data.take 2 = [0x5b, 0x44]
    · simp only [if_neg hhome, if_neg hend, if_neg hright, if_pos hleft]
      exact ⟨rfl, rfl⟩
    simp only [if_neg hhome, if_neg hend, if_neg hright, if_neg hleft]
    by_cases hup : data.take 2 = [0x5b, 0x41]
    · simp only [if_pos hup, if_pos (Or.inl hup)]
      exact ⟨rfl, rfl⟩
    by_cases hdown : data.take 2 = [0x5b, 0x42]
    · simp only [if_neg hup, if_pos hdown, if_pos (Or.inr hdown)]
      exact ⟨rfl, rfl⟩
    simp only [if_neg hup, if_neg hdown, if_neg (not_or.mpr ⟨hup, hdown⟩)]
    exact ⟨rfl, rfl⟩
  · rw [key_eq_byte t hb, firstKey_byte hb]
    exact ⟨rfl, rfl⟩

/-- More fuel than bytes reads no more keys. -/
theorem keysFrom_congr {fuel fuel' : Nat} {data : Bytes} (h : data.length ≤ fuel) (h' : data.length ≤ fuel') :
    keysFrom fuel data = keysFrom fuel' data := by
  induction fuel generalizing fuel' data with
  | zero =>
    rw [List.length_eq_zero_iff.mp (Nat.le_zero.mp h)]
    cases fuel' <;> rfl
  | succ fuel ih =>
    cases data with
    | nil => cases fuel' <;> rfl
    | cons b data =>
      have hshorter := length_firstKey b data
      rw [List.length_cons] at h h'
      obtain ⟨fuel', rfl⟩ : ∃ k, fuel' = k + 1 := ⟨fuel' - 1, by omega⟩
      have hfuel : (firstKey b data).2.length ≤ fuel' := hshorter.trans (by omega)
      unfold keysFrom
      rw [ih (hshorter.trans (by omega)) hfuel]

theorem keys_cons (b : UInt8) (data : Bytes) :
    keys (b :: data) = (firstKey b data).1 :: keys (firstKey b data).2 := by
  unfold keys
  rw [List.length_cons, keysFrom, keysFrom_congr (length_firstKey b data) le_rfl]

/-- **The loop presses the keys of its data.** -/
theorem loop_key {fuel : Nat} (t : Term) {data : Bytes} (hfuel : data.length ≤ fuel) :
    Term.loop Term.key fuel t data = t.pressAll (keys data) := by
  induction fuel generalizing t data with
  | zero =>
    rw [List.length_eq_zero_iff.mp (Nat.le_zero.mp hfuel)]
    rfl
  | succ fuel ih =>
    cases data with
    | nil => rfl
    | cons b data =>
      obtain ⟨hpress, hdrop⟩ := key_eq t b data
      have hshorter := length_firstKey b data
      rw [List.length_cons] at hfuel
      unfold Term.loop
      rw [if_neg (List.cons_ne_nil b data), hpress, hdrop, ih _ (hshorter.trans (by omega)), keys_cons]
      rfl

/-! ## Packets -/

/-- A sequence begins at the end of `a` and goes on in `b`. -/
def Broken (a b : Bytes) : Prop := ∃ s ∈ sequences, ∃ n ∈ [1, 2], s.1.take n <:+ a ∧ s.1.drop n <+: b

instance (a b : Bytes) : Decidable (Broken a b) := inferInstanceAs (Decidable (∃ s ∈ sequences, _))

/-- No packet ends within a sequence that the ones after it go on with. -/
def Unbroken : List Bytes → Prop
  | [] => True
  | data :: packets => ¬ Broken data packets.flatten ∧ Unbroken packets

theorem length_sequences : ∀ s ∈ sequences, s.1.length = 3 := by decide

theorem Broken.mono {a a' b b' : Bytes} (h : Broken a b) (ha : a <:+ a') (hb : b <+: b') : Broken a' b' := by
  obtain ⟨s, hs, n, hn, hsuffix, hbegins⟩ := h
  exact ⟨s, hs, n, hn, hsuffix.trans ha, hbegins.trans hb⟩

/-- A sequence that the whole begins with is in the first part. -/
theorem prefix_of_not_broken {a c : Bytes} (ha : a ≠ []) (h : ¬ Broken a c) {s : Bytes × Key}
    (hs : s ∈ sequences) (hbegins : s.1 <+: a ++ c) : s.1 <+: a := by
  have hthree := length_sequences s hs
  obtain ⟨rest, hrest⟩ := hbegins
  rcases List.append_eq_append_iff.mp hrest with ⟨d, rfl, -⟩ | ⟨d, hd, rfl⟩
  · exact List.prefix_append _ _
  · by_contra hnot
    have hpos : 0 < a.length := List.length_pos_of_ne_nil ha
    have hshort : a.length < 3 := by
      by_contra hlong
      have hlen := congrArg List.length hd
      rw [List.length_append, hthree] at hlen
      have hnil : d = [] := List.length_eq_zero_iff.mp (by omega)
      rw [hd, hnil, List.append_nil] at hnot
      exact hnot (List.prefix_refl _)
    refine h ⟨s, hs, a.length, ?_, ?_, ?_⟩
    · rcases (show a.length = 1 ∨ a.length = 2 by omega) with h1 | h2
      · rw [h1]
        decide
      · rw [h2]
        decide
    · rw [hd, List.take_left]
    · rw [hd, List.drop_left]
      exact List.prefix_append _ _

/-- The first key of unbroken data. -/
theorem firstKey_append {b : UInt8} {a c : Bytes} (h : ¬ Broken (b :: a) c) :
    firstKey b (a ++ c) = ((firstKey b a).1, (firstKey b a).2 ++ c) := by
  -- a sequence is read in the whole iff it is read in the first part
  have hsame : ∀ s ∈ sequences, s.1.isPrefixOf (b :: (a ++ c)) = s.1.isPrefixOf (b :: a) := by
    intro s hs
    rw [Bool.eq_iff_iff, List.isPrefixOf_iff_prefix, List.isPrefixOf_iff_prefix, ← List.cons_append]
    exact ⟨prefix_of_not_broken (List.cons_ne_nil b a) h hs,
      fun hbegins => hbegins.trans (List.prefix_append _ _)⟩
  unfold firstKey
  rw [List.find?_congr hsame]
  cases hfind : sequences.find? fun s => s.1.isPrefixOf (b :: a) with
  | none => rfl
  | some s =>
    have hlen := length_sequences s (List.mem_of_find?_eq_some hfind)
    have hfound : s.1.isPrefixOf (b :: a) = true := by simpa using List.find?_some hfind
    have hle := (List.isPrefixOf_iff_prefix.mp hfound).length_le
    rw [hlen, List.length_cons] at hle
    simp only
    rw [List.drop_append_of_le_length (by omega)]

theorem firstKey_suffix (b : UInt8) (data : Bytes) : (firstKey b data).2 <:+ b :: data := by
  unfold firstKey
  split
  · exact (List.drop_suffix 2 data).trans (List.suffix_cons b data)
  · exact List.suffix_cons b data

/-- **The keys of unbroken data.** -/
theorem keys_append {a c : Bytes} (h : ¬ Broken a c) : keys (a ++ c) = keys a ++ keys c := by
  induction hn : a.length using Nat.strong_induction_on generalizing a with
  | h n ih =>
    cases a with
    | nil => rfl
    | cons b a =>
      have hrest : ¬ Broken (firstKey b a).2 c := fun hbroken =>
        h (hbroken.mono (firstKey_suffix b a) (List.prefix_refl c))
      have hshorter : (firstKey b a).2.length < n := by
        rw [← hn, List.length_cons]
        exact Nat.lt_succ_of_le (length_firstKey b a)
      rw [List.cons_append, keys_cons, firstKey_append h, keys_cons, ih _ hshorter hrest rfl]
      rfl

/-! ## What a broken sequence does -/

/-- Bytes without an escape are typed as they are. -/
def ofBytes (data : Bytes) : List Key := data.map .ofByte

theorem keys_ofBytes {data : Bytes} (h : 0x1b ∉ data) : keys data = ofBytes data := by
  induction data with
  | nil => rfl
  | cons b data ih =>
    obtain ⟨hb, hdata⟩ := not_or.mp (mt List.mem_cons.mpr h)
    rw [keys_cons, firstKey_byte (Ne.symm hb), ih hdata]
    rfl

/-- What the packets press. -/
theorem flatMap_ofBytes {packets : List Bytes} (h : 0x1b ∉ packets.flatten) :
    packets.flatMap keys = ofBytes packets.flatten := by
  induction packets with
  | nil => rfl
  | cons data packets ih =>
    rw [List.flatten_cons, List.mem_append, not_or] at h
    rw [List.flatMap_cons, keys_ofBytes h.1, ih h.2, List.flatten_cons]
    exact (List.map_append).symm

/-- Where a sequence is broken off, its bytes are typed. -/
theorem broken_typed : ∀ s ∈ sequences, ∀ n ∈ [1, 2],
    keys (s.1.take n) = (s.1.take n).map .typed ∧ ofBytes (s.1.drop n) = (s.1.drop n).map .typed ∧
      0x1b ∉ s.1.drop n ∧ keys s.1 = [s.2] := by decide

/-- A sequence begins with its only escape. -/
theorem escape_first : ∀ s ∈ sequences, (∀ n ∈ [1, 2, 3], (s.1.take n).head? = some 0x1b) ∧
    ∀ n ∈ [1, 2], ∃ b ∈ (s.1.drop n).head?, b ≠ 0x1b := by decide

/-- Nothing is broken before a sequence. -/
theorem not_broken_before {s : Bytes × Key} (hs : s ∈ sequences) {n : Nat} (hn : n ∈ [1, 2, 3]) (a : Bytes) :
    ¬ Broken a (s.1.take n) := by
  rintro ⟨s', hs', m, hm, -, rest, hrest⟩
  obtain ⟨b, hb, hne⟩ := (escape_first s' hs').2 m hm
  have hhead := (escape_first s hs).1 n hn
  rw [← hrest, List.head?_append, Option.mem_def.mp hb] at hhead
  exact hne (Option.some.inj hhead)

theorem length_insert (t : Term) (b : UInt8) : (t.insert [b]).command.length = t.command.length + 1 := by
  unfold Term.insert sliceTo sliceFrom
  split_ifs <;> simp <;> omega

/-- A key that sends a sequence leaves the line as it is. -/
theorem command_sequence (t : Term) : ∀ s ∈ sequences, (t.press s.2).command = t.command := by
  intro s hs
  unfold sequences at hs
  simp only [List.mem_cons, List.not_mem_nil, or_false] at hs
  rcases hs with rfl | rfl | rfl | rfl | rfl | rfl <;> rfl

theorem length_typed (t : Term) (data : Bytes) :
    (t.pressAll (data.map .typed)).command.length = t.command.length + data.length := by
  induction data generalizing t with
  | nil => rfl
  | cons b data ih =>
    change ((t.insert [b]).pressAll (data.map .typed)).command.length = _
    rw [ih, length_insert, List.length_cons]
    omega

/-! ## Whole and in packets -/

/-- What the packets of a stream say about the line. -/
structure Typing where
  command : Bytes
  pointer : Int
  tabPress : Bool
  upArrow : Bool
  log : List CommandLog
  deriving DecidableEq

def Term.typing (t : Term) : Typing := ⟨t.command, t.pointer, t.tabPress, t.upArrow, t.log⟩

/-- The packets that the frontend sends, one after the other. -/
def Term.receive (t : Term) (packets : List Bytes) : Term :=
  packets.foldl (fun t data => t.parsePacket .server data) t

/-- The packets of the first `n` bytes. -/
def upTo : Nat → List Bytes → List Bytes
  | _, [] => []
  | n, data :: packets => data.take n :: upTo (n - data.length) packets

theorem flatten_upTo (n : Nat) (packets : List Bytes) : (upTo n packets).flatten = packets.flatten.take n := by
  induction packets generalizing n with
  | nil => exact List.take_nil.symm
  | cons data packets ih =>
    unfold upTo
    rw [List.flatten_cons, List.flatten_cons, ih, List.take_append]

theorem upTo_all {n : Nat} {packets : List Bytes} (h : packets.flatten.length ≤ n) : upTo n packets = packets := by
  induction packets generalizing n with
  | nil => rfl
  | cons data packets ih =>
    rw [List.flatten_cons, List.length_append] at h
    unfold upTo
    rw [List.take_of_length_le (by omega), ih (by omega)]

/-- The recording is not read. -/
theorem press_recording (t : Term) (r : Recording) (k : Key) :
    ({ t with recording := r } : Term).press k = { t.press k with recording := r } := by
  cases k with
  | backspace =>
    change ({ t with recording := r } : Term).backspace = { t.backspace with recording := r }
    unfold Term.backspace
    split_ifs <;> rfl
  | _ => rfl

theorem pressAll_recording (t : Term) (r : Recording) (ks : List Key) :
    ({ t with recording := r } : Term).pressAll ks = { t.pressAll ks with recording := r } := by
  induction ks generalizing t with
  | nil => rfl
  | cons k ks ih =>
    change (({ t with recording := r } : Term).press k).pressAll ks = _
    rw [press_recording, ih]
    rfl

theorem typing_parsePacket (t : Term) (data : Bytes) :
    (t.parsePacket .server data).typing = (t.pressAll (keys data)).typing := by
  unfold Term.parsePacket
  simp only
  rw [loop_key t le_rfl]
  rfl

theorem receive_eq (t : Term) (packets : List Bytes) :
    ∃ r, t.receive packets = { t.pressAll (packets.flatMap keys) with recording := r } := by
  induction packets generalizing t with
  | nil => exact ⟨t.recording, rfl⟩
  | cons data packets ih =>
    obtain ⟨r, hr⟩ := ih (t.parsePacket .server data)
    refine ⟨r, ?_⟩
    change (t.parsePacket .server data).receive packets = _
    rw [hr, List.flatMap_cons, pressAll_append]
    unfold Term.parsePacket
    simp only
    rw [loop_key t le_rfl, pressAll_recording]

theorem typing_receive (t : Term) (packets : List Bytes) :
    (t.receive packets).typing = (t.pressAll (packets.flatMap keys)).typing := by
  obtain ⟨r, hr⟩ := receive_eq t packets
  rw [hr]
  rfl

theorem not_broken_nil (a : Bytes) : ¬ Broken a [] := by
  rintro ⟨s, hs, n, hn, -, hbegins⟩
  obtain ⟨b, hb, -⟩ := (escape_first s hs).2 n hn
  rw [List.prefix_nil.mp hbegins] at hb
  cases hb

theorem unbroken_upTo {packets : List Bytes} (h : Unbroken packets) (n : Nat) : Unbroken (upTo n packets) := by
  induction packets generalizing n with
  | nil => exact trivial
  | cons data packets ih =>
    obtain ⟨hdata, hrest⟩ := h
    refine ⟨?_, ih hrest _⟩
    rw [flatten_upTo]
    by_cases hn : n ≤ data.length
    · rw [Nat.sub_eq_zero_of_le hn, List.take_zero]
      exact not_broken_nil _
    · rw [List.take_of_length_le (by omega)]
      exact fun hbroken => hdata (hbroken.mono List.suffix_rfl (List.take_prefix _ _))

theorem flatMap_unbroken {packets : List Bytes} (h : Unbroken packets) :
    packets.flatMap keys = keys packets.flatten := by
  induction packets with
  | nil => rfl
  | cons data packets ih =>
    rw [List.flatMap_cons, List.flatten_cons, keys_append h.1, ih h.2]

/-- **A broken sequence is seen in the line**: its bytes are typed. -/
theorem length_broken (t : Term) {data : Bytes} {packets : List Bytes} (h : Broken data packets.flatten) :
    ∃ n, (t.pressAll ((upTo n (data :: packets)).flatMap keys)).command.length =
      (t.pressAll (keys ((data :: packets).flatten.take n))).command.length + 3 := by
  obtain ⟨s, hs, m, hm, ⟨a, rfl⟩, rest, hrest⟩ := h
  obtain ⟨hfirst, hlast, hnone, hwhole⟩ := broken_typed s hs m hm
  have hthree := length_sequences s hs
  have hmem : m ∈ [1, 2, 3] := List.mem_append_left [3] hm
  refine ⟨(a ++ s.1.take m).length + (s.1.drop m).length, ?_⟩
  have hsplit : (upTo ((a ++ s.1.take m).length + (s.1.drop m).length)
      ((a ++ s.1.take m) :: packets)).flatMap keys = keys a ++ s.1.map .typed := by
    unfold upTo
    have hflat : (upTo (s.1.drop m).length packets).flatten = s.1.drop m := by
      rw [flatten_upTo, ← hrest, List.take_left]
    have hplain : 0x1b ∉ (upTo (s.1.drop m).length packets).flatten := by
      rw [hflat]
      exact hnone
    rw [List.take_of_length_le (by omega), Nat.add_sub_cancel_left, List.flatMap_cons,
      keys_append (not_broken_before hs hmem a), hfirst, flatMap_ofBytes hplain, hflat, hlast,
      List.append_assoc, ← List.map_append, List.take_append_drop]
  have hjoined : keys (((a ++ s.1.take m) :: packets).flatten.take
      ((a ++ s.1.take m).length + (s.1.drop m).length)) = keys a ++ [s.2] := by
    have hall : s.1.take 3 = s.1 := List.take_of_length_le hthree.le
    rw [List.flatten_cons, ← hrest, ← List.append_assoc, ← List.length_append, List.take_left,
      List.append_assoc, List.take_append_drop,
      keys_append (hall ▸ not_broken_before hs (by decide : 3 ∈ [1, 2, 3]) a), hwhole]
  rw [hsplit, hjoined, pressAll_append, pressAll_append, length_typed, hthree]
  change _ = ((t.pressAll (keys a)).press s.2).command.length + 3
  rw [command_sequence _ s hs]

/-- What the keys do at every point of the stream. -/
theorem pressed_iff (t : Term) (packets : List Bytes) :
    (∀ n, (t.pressAll ((upTo n packets).flatMap keys)).typing =
      (t.pressAll (keys (packets.flatten.take n))).typing) ↔ Unbroken packets := by
  constructor
  · intro h
    induction packets generalizing t with
    | nil => exact trivial
    | cons data packets ih =>
      have hdata : ¬ Broken data packets.flatten := by
        intro hbroken
        obtain ⟨n, hn⟩ := length_broken t hbroken
        have hsame := congrArg (fun typing => typing.command.length) (h n)
        simp only [Term.typing] at hsame
        omega
      refine ⟨hdata, ih (t.pressAll (keys data)) fun n => ?_⟩
      have hlater := h (data.length + n)
      have hcut : ¬ Broken data (packets.flatten.take n) := fun hbroken =>
        hdata (hbroken.mono List.suffix_rfl (List.take_prefix _ _))
      unfold upTo at hlater
      rw [List.take_of_length_le (by omega), Nat.add_sub_cancel_left, List.flatMap_cons, pressAll_append,
        List.flatten_cons, List.take_length_add_append, keys_append hcut, pressAll_append] at hlater
      exact hlater
  · intro h n
    rw [flatMap_unbroken (unbroken_upTo h n), flatten_upTo]

/-- **Packets that break no sequence do what their bytes do in one packet**, and no others do so for the
stream and all its beginnings. -/
theorem keystrokes_iff (t : Term) (packets : List Bytes) :
    (Unbroken packets → (t.receive packets).typing = (t.parsePacket .server packets.flatten).typing) ∧
      (Unbroken packets ↔ ∀ n, (t.receive (upTo n packets)).typing =
        (t.parsePacket .server (packets.flatten.take n)).typing) := by
  simp only [typing_receive, typing_parsePacket]
  refine ⟨fun h => ?_, (pressed_iff t packets).symm⟩
  have hall := (pressed_iff t packets).mpr h packets.flatten.length
  rw [upTo_all le_rfl, List.take_length] at hall
  exact hall

/-- `ESC`, then `[ D`: the arrow to the left is typed into the line. -/
theorem keystrokes_violated :
    ¬ ∀ (t : Term) (packets : List Bytes),
      (t.receive packets).typing = (t.parsePacket .server packets.flatten).typing := fun h =>
  absurd (h newTerm [[0x1b], [0x5b, 0x44]]) (by decide +kernel)

end Cowrie.SshProxy
