import Cowrie.Lib.LengthPrefix
import Cowrie.Lib.Run
import Cowrie.SshProxy.Sftp

/-!
# Reassembly of SFTP packets

`SFTP.parse_packet` (`sftp.py:99-131`) receives channel data in arbitrary chunks. In the middle of
a packet it handles a chunk that holds the end of the packet and more: the rest is parsed again.
At a packet boundary it does not: it reads the length field from whatever is there, subtracts the
rest of the chunk from it, and waits for `packetSize` to become 0. A chunk shorter than the length
field, or one that reaches past the packet it starts, therefore derails the direction.

* **`framing_violated`**: two packets in one chunk, then a third; `handle_packet` gets the first
  two as one.
* **`framed_iff_fits`**: while no exception of `handle_packet` discards the rest of a chunk, the
  calls of `handle_packet` are the packets, in order, iff every chunk fits.
-/

namespace Cowrie.SshProxy

open Cowrie.Lib

variable (sha256 : Bytes → String)

/-- Channel data of one direction. -/
abbrev Chunk := Parent × Bytes

namespace SFTP

/-- One call of `parse_packet`; an exception ends that call only. -/
def step (s : SFTP) (e : Chunk) : Option SFTP :=
  some (parsePacket sha256 e.1 e.2 s).1

/-- The bodies `handle_packet` was called with, in one direction. -/
def callsOf (s : SFTP) (d : Parent) : List Bytes :=
  (s.calls.filter fun c => c.1 = d).map Prod.snd

/-- The bytes of one direction. -/
def bytesOf (d : Parent) (chunks : List Chunk) : Bytes :=
  (chunks.filter fun c => c.1 = d).flatMap Prod.snd

/-- A chunk read from a packet boundary holds the whole length field and does not reach past
the packet. -/
def FitsAt (c : Bytes) : Prop := 4 ≤ c.length ∧ c.length ≤ 4 + intFromBytes (c.take 4)

instance (c : Bytes) : Decidable (FitsAt c) := inferInstanceAs (Decidable (_ ∧ _))

/-- The part of a chunk that is read from a packet boundary, if any, fits. -/
def Fits (s : SFTP) (e : Chunk) : Prop :=
  if (s.buffer e.1).packetSize = 0 then FitsAt e.2
  else (s.buffer e.1).packetSize < e.2.length → FitsAt (sliceFrom e.2 (s.buffer e.1).packetSize)

instance (s : SFTP) (e : Chunk) : Decidable (Fits s e) := by unfold Fits; infer_instance

/-- The packet a chunk completes is handled without an exception when the chunk goes on. -/
def Completes (s : SFTP) (e : Chunk) : Prop :=
  let p := s.buffer e.1
  p.packetSize ≠ 0 → p.packetSize < e.2.length →
    (handle sha256 e.1 (s.setBuffer e.1 ⟨0, p.data ++ sliceTo e.2 p.packetSize⟩)).2 = none

instance (s : SFTP) (e : Chunk) : Decidable (Completes sha256 s e) := by
  unfold Completes; infer_instance

/-! ## What one call does -/

@[simp] theorem buffer_setBuffer_self (s : SFTP) (d : Parent) (p : Packet) :
    (s.setBuffer d p).buffer d = p := by
  cases d <;> rfl

theorem buffer_setBuffer_other (s : SFTP) {d d' : Parent} (p : Packet) (h : d' ≠ d) :
    (s.setBuffer d p).buffer d' = s.buffer d' := by
  cases d <;> cases d' <;> first | rfl | exact absurd rfl h

@[simp] theorem callsOf_setBuffer (s : SFTP) (d d' : Parent) (p : Packet) :
    (s.setBuffer d p).callsOf d' = s.callsOf d' := by
  cases d <;> rfl

@[simp] theorem buffer_handle (s : SFTP) (d d' : Parent) :
    (handle sha256 d s).1.buffer d' = s.buffer d' := by
  cases d' <;> rfl

/-- `t` comes from `s` by work on direction `d`, with the calls `news`. -/
structure Only (d : Parent) (s t : SFTP) (news : List Bytes) : Prop where
  calls : t.callsOf d = s.callsOf d ++ news
  otherCalls : ∀ d', d' ≠ d → t.callsOf d' = s.callsOf d'
  otherBuffer : ∀ d', d' ≠ d → t.buffer d' = s.buffer d'

theorem Only.trans {d : Parent} {s t u : SFTP} {as bs : List Bytes} (h : Only d s t as)
    (h' : Only d t u bs) : Only d s u (as ++ bs) :=
  ⟨by rw [h'.calls, h.calls, List.append_assoc],
    fun d' hd => (h'.otherCalls d' hd).trans (h.otherCalls d' hd),
    fun d' hd => (h'.otherBuffer d' hd).trans (h.otherBuffer d' hd)⟩

theorem only_setBuffer (s : SFTP) (d : Parent) (p : Packet) : Only d s (s.setBuffer d p) [] :=
  ⟨by simp, fun d' _ => callsOf_setBuffer s d d' p,
    fun d' hd => buffer_setBuffer_other s p hd⟩

theorem only_handle (s : SFTP) (d : Parent) :
    Only d s (handle sha256 d s).1 [(s.buffer d).data] := by
  refine ⟨?_, fun d' hd => ?_, fun d' _ => buffer_handle sha256 s d d'⟩
  · simp [callsOf, handle]
  · simp [callsOf, handle, Ne.symm hd]

/-- **What `parse_packet` does at a packet boundary.** -/
theorem startPacket_spec {d : Parent} {c : Bytes} (s : SFTP) (hc : c ≠ []) :
    Only d s (startPacket sha256 d c s).1 (if startSize c = 0 then [c.drop 4] else []) ∧
      (startPacket sha256 d c s).1.buffer d = ⟨startSize c, c.drop 4⟩ := by
  unfold startPacket
  rw [if_neg hc]
  by_cases hsize : startSize c = 0
  · simp only [if_pos hsize]
    have h := (only_setBuffer s d ⟨startSize c, c.drop 4⟩).trans
      (only_handle sha256 (s.setBuffer d ⟨startSize c, c.drop 4⟩) d)
    rw [buffer_setBuffer_self, List.nil_append] at h
    exact ⟨h, by rw [buffer_handle, buffer_setBuffer_self]⟩
  · simp only [if_neg hsize]
    exact ⟨only_setBuffer s d _, buffer_setBuffer_self s d _⟩

/-- The state after the packet under way is completed by the chunk `c` and handled. -/
def completed (d : Parent) (c : Bytes) (s : SFTP) : SFTP :=
  (handle sha256 d (s.setBuffer d
    ⟨0, (s.buffer d).data ++ sliceTo c (s.buffer d).packetSize⟩)).1

theorem completed_spec (d : Parent) (c : Bytes) (s : SFTP) :
    Only d s (completed sha256 d c s)
      [(s.buffer d).data ++ sliceTo c (s.buffer d).packetSize] ∧
      (completed sha256 d c s).buffer d =
        ⟨0, (s.buffer d).data ++ sliceTo c (s.buffer d).packetSize⟩ := by
  have h := (only_setBuffer s d ⟨0, (s.buffer d).data ++ sliceTo c (s.buffer d).packetSize⟩).trans
    (only_handle sha256 (s.setBuffer d
      ⟨0, (s.buffer d).data ++ sliceTo c (s.buffer d).packetSize⟩) d)
  rw [buffer_setBuffer_self, List.nil_append] at h
  exact ⟨h, by unfold completed; rw [buffer_handle, buffer_setBuffer_self]⟩

/-- **What `parse_packet` does in the middle of a packet**, by the size of the chunk. -/
theorem parsePacket_mid {d : Parent} {c : Bytes} {s : SFTP}
    (hsize : (s.buffer d).packetSize ≠ 0) :
    let p := s.buffer d
    let t := (parsePacket sha256 d c s).1
    (p.packetSize < c.length ∧
      ((t = completed sha256 d c s ∧ ((handle sha256 d (s.setBuffer d
          ⟨0, p.data ++ sliceTo c p.packetSize⟩)).2 ≠ none ∨ sliceFrom c p.packetSize = [])) ∨
      (sliceFrom c p.packetSize ≠ [] ∧
        t = (startPacket sha256 d (sliceFrom c p.packetSize) (completed sha256 d c s)).1))) ∨
    (¬ p.packetSize < c.length ∧
      Only d s t (if p.packetSize - c.length = 0 then [p.data ++ c] else []) ∧
      t.buffer d = ⟨p.packetSize - c.length, p.data ++ c⟩) := by
  simp only
  unfold parsePacket
  simp only [if_neg hsize]
  by_cases hlt : (s.buffer d).packetSize < c.length
  · left
    refine ⟨hlt, ?_⟩
    rw [if_pos hlt]
    unfold completed
    cases hh : handle sha256 d (s.setBuffer d
      ⟨0, (s.buffer d).data ++ sliceTo c (s.buffer d).packetSize⟩) with
    | mk t r =>
      cases r with
      | some e => exact Or.inl ⟨rfl, Or.inl (by simp)⟩
      | none =>
        simp only
        by_cases hrest : sliceFrom c (s.buffer d).packetSize = []
        · exact Or.inl ⟨by rw [if_pos hrest], Or.inr hrest⟩
        · exact Or.inr ⟨hrest, by rw [if_neg hrest]⟩
  · right
    refine ⟨hlt, ?_⟩
    rw [if_neg hlt]
    by_cases hz : (s.buffer d).packetSize - (c.length : Int) = 0
    · simp only [if_pos hz]
      have h := (only_setBuffer s d
        ⟨(s.buffer d).packetSize - c.length, (s.buffer d).data ++ c⟩).trans
        (only_handle sha256 (s.setBuffer d
          ⟨(s.buffer d).packetSize - c.length, (s.buffer d).data ++ c⟩) d)
      rw [buffer_setBuffer_self, List.nil_append] at h
      exact ⟨h, by rw [buffer_handle, buffer_setBuffer_self]⟩
    · simp only [if_neg hz]
      exact ⟨only_setBuffer s d _, buffer_setBuffer_self s d _⟩

/-- A call works on its own direction, whatever the chunk and the state. -/
theorem parsePacket_only (d : Parent) {c : Bytes} (s : SFTP) (hc : c ≠ []) :
    ∃ news, Only d s (parsePacket sha256 d c s).1 news := by
  by_cases hsize : (s.buffer d).packetSize = 0
  · have h := (startPacket_spec sha256 (d := d) s hc).1
    unfold parsePacket
    simp only [if_pos hsize]
    exact ⟨_, h⟩
  · rcases parsePacket_mid sha256 (c := c) hsize with
      ⟨-, ⟨h, -⟩ | ⟨hne, h⟩⟩ | ⟨-, h, -⟩
    · rw [h]
      exact ⟨_, (completed_spec sha256 d c s).1⟩
    · rw [h]
      exact ⟨_, (completed_spec sha256 d c s).1.trans (startPacket_spec sha256 _ hne).1⟩
    · exact ⟨_, h⟩

variable {sha256}

/-! ## In step with the stream -/

/-- The buffer `p` of a direction is in step with the rest of its stream: `todo` are the packets
not yet handled, `rest` the bytes not yet received. -/
inductive Sync (todo : List Bytes) (rest : Bytes) (p : Packet) : Prop
  | idle (hsize : p.packetSize = 0) (hrest : frames todo = rest)
  | mid (tail : Bytes) (later : List Bytes) (htodo : todo = (p.data ++ tail) :: later)
      (htail : tail ≠ []) (hsize : p.packetSize = tail.length)
      (hrest : rest = tail ++ frames later)

/-- Bodies as the length field admits them. -/
def Framable (bodies : List Bytes) : Prop := ∀ b ∈ bodies, 0 < b.length ∧ b.length < 2 ^ 32

theorem slices_at {p : Packet} {tail : Bytes} (more : Bytes) (hsize : p.packetSize = tail.length) :
    sliceTo (tail ++ more) p.packetSize = tail ∧ sliceFrom (tail ++ more) p.packetSize = more := by
  rw [hsize]
  exact ⟨by simp [sliceTo], by simp [sliceFrom]⟩

/-- A chunk that fits, read from a packet boundary, keeps in step. -/
theorem startPacket_sync {d : Parent} {c rest : Bytes} {todo : List Bytes} {s : SFTP}
    (hpack : Framable todo) (hc : c ≠ []) (hfit : FitsAt c) (h : frames todo = c ++ rest) :
    ∃ done todo', todo = done ++ todo' ∧ Only d s (startPacket sha256 d c s).1 done ∧
      Sync todo' rest ((startPacket sha256 d c s).1.buffer d) := by
  cases todo with
  | nil => exact absurd (List.append_eq_nil_iff.mp h.symm).1 hc
  | cons body later =>
    obtain ⟨-, hlt⟩ := hpack body List.mem_cons_self
    obtain ⟨hval, hdrop⟩ := frames_split hlt h hfit.1
    have hle : (c.drop 4).length ≤ body.length := by
      rw [List.length_drop, ← hval]
      have := hfit.2
      omega
    obtain ⟨tail, rfl, hrest⟩ := append_split hdrop hle
    obtain ⟨honly, hbuf⟩ := startPacket_spec sha256 (d := d) s hc
    have hsize : startSize c = tail.length := by
      unfold startSize
      rw [hval, List.length_append]
      push_cast
      omega
    by_cases ht : tail = []
    · subst ht
      rw [if_pos (by rw [hsize]; rfl)] at honly
      refine ⟨[c.drop 4], later, by rw [List.append_nil]; rfl, honly, Sync.idle ?_ hrest.symm⟩
      rw [hbuf, hsize]
      rfl
    · have hpos : startSize c ≠ 0 := by
        rw [hsize]
        simpa using ht
      rw [if_neg hpos] at honly
      refine ⟨[], (c.drop 4 ++ tail) :: later, rfl, honly, Sync.mid tail later ?_ ht ?_ hrest⟩
      · rw [hbuf]
      · rw [hbuf, hsize]

/-- **A chunk that fits keeps its direction in step.** -/
theorem parsePacket_sync {d : Parent} {c rest : Bytes} {todo : List Bytes} {s : SFTP}
    (hpack : Framable todo) (hc : c ≠ []) (hfit : Fits s (d, c))
    (hcomp : Completes sha256 s (d, c)) (h : Sync todo (c ++ rest) (s.buffer d)) :
    ∃ done todo', todo = done ++ todo' ∧ Only d s (parsePacket sha256 d c s).1 done ∧
      Sync todo' rest ((parsePacket sha256 d c s).1.buffer d) := by
  unfold Fits at hfit
  simp only at hfit
  cases h with
  | idle hsize hrest =>
    rw [if_pos hsize] at hfit
    unfold parsePacket
    simp only [if_pos hsize]
    exact startPacket_sync hpack hc hfit hrest
  | mid tail later htodo htail hsize hrest =>
    have htpos : 0 < tail.length := List.length_pos_of_ne_nil htail
    have hne : (s.buffer d).packetSize ≠ 0 := by rw [hsize]; omega
    rw [if_neg hne] at hfit
    have hcomp' := hcomp hne
    rcases parsePacket_mid sha256 (c := c) hne with ⟨hlt, hcase⟩ | ⟨hge, honly, hbuf⟩
    · -- the chunk ends the packet and goes on
      have hlen : tail.length < c.length := by rw [hsize] at hlt; exact_mod_cast hlt
      obtain ⟨more, rfl, hmore⟩ := append_split hrest hlen.le
      obtain ⟨hto, hfrom⟩ := slices_at more hsize
      have hmne : more ≠ [] := by
        rintro rfl
        simp at hlen
      obtain ⟨hdone, hdbuf⟩ := completed_spec sha256 d (tail ++ more) s
      rw [hfrom] at hcase hfit
      rcases hcase with ⟨-, hraise | hnil⟩ | ⟨-, ht⟩
      · exact absurd (hcomp' hlt) hraise
      · exact absurd hnil hmne
      · rw [ht]
        have hlater : Framable later := fun b hb => hpack b (by
          rw [htodo]
          exact List.mem_cons_of_mem _ hb)
        obtain ⟨done, todo', hsplit, honly, hsync⟩ := startPacket_sync
          (s := completed sha256 d (tail ++ more) s) (d := d) hlater hmne (hfit hlt) hmore
        refine ⟨((s.buffer d).data ++ tail) :: done, todo', ?_, ?_, hsync⟩
        · rw [htodo, hsplit, List.cons_append]
        · rw [hto] at hdone
          exact hdone.trans honly
    · -- the packet is still under way, or ends with the chunk
      have hlen : c.length ≤ tail.length := by
        rw [hsize] at hge
        omega
      obtain ⟨tail', rfl, hrest'⟩ := append_split hrest.symm hlen
      rw [hsize] at honly hbuf
      have hleft : ((c ++ tail').length : Int) - c.length = tail'.length := by
        rw [List.length_append]
        push_cast
        omega
      rw [hleft] at honly hbuf
      by_cases ht : tail' = []
      · subst ht
        rw [if_pos (show (([] : Bytes).length : Int) = 0 from rfl)] at honly
        refine ⟨[(s.buffer d).data ++ c], later, ?_, honly, Sync.idle ?_ hrest'.symm⟩
        · rw [htodo, List.append_nil]
          rfl
        · rw [hbuf]
          rfl
      · rw [if_neg (by simpa using ht)] at honly
        refine ⟨[], todo, rfl, honly, Sync.mid tail' later ?_ ht ?_ hrest'⟩
        · rw [htodo, hbuf, List.append_assoc]
        · rw [hbuf]

/-! ## Derailed -/

/-- Direction `d` can no longer produce exactly `bodies`: the next call of `handle_packet` will
get a body of the wrong length, or the calls already differ. -/
inductive Derailed (bodies : List Bytes) (s : SFTP) (d : Parent) : Prop
  | late (n : Nat) (body : Bytes) (hcalls : s.callsOf d = bodies.take n)
      (hbody : bodies[n]? = some body)
      (hsize : (0 < (s.buffer d).packetSize ∧
          ((s.buffer d).data.length : Int) + (s.buffer d).packetSize ≠ body.length) ∨
        ((s.buffer d).packetSize < 0 ∧ body.length < (s.buffer d).data.length))
  | wrong (hcalls : ¬ s.callsOf d <+: bodies)

theorem Derailed.calls_ne {bodies : List Bytes} {s : SFTP} {d : Parent}
    (h : Derailed bodies s d) : s.callsOf d ≠ bodies := by
  cases h with
  | late n body hcalls hbody _ =>
    intro heq
    have hlt := (List.getElem?_eq_some_iff.mp hbody).1
    have := congrArg List.length (hcalls.symm.trans heq)
    rw [List.length_take] at this
    omega
  | wrong hcalls => exact fun heq => hcalls (heq ▸ List.prefix_refl _)

/-- A call with a body of the wrong length. -/
theorem derailed_of_call {bodies : List Bytes} {s t : SFTP} {d : Parent} {n : Nat}
    {body x : Bytes} {news : List Bytes} (hcalls : s.callsOf d = bodies.take n)
    (hbody : bodies[n]? = some body) (honly : Only d s t (x :: news))
    (hx : x.length ≠ body.length) : Derailed bodies t d := by
  refine Derailed.wrong fun hpre => hx ?_
  rw [honly.calls, hcalls] at hpre
  have hn : (bodies.take n).length = n := by
    have := (List.getElem?_eq_some_iff.mp hbody).1
    rw [List.length_take]
    omega
  obtain ⟨more, hmore⟩ := hpre
  have hget : (bodies.take n ++ x :: news ++ more)[n]? = some x := by
    rw [List.append_assoc, List.getElem?_append_right (by omega), hn]
    simp
  rw [hmore, hbody] at hget
  rw [Option.some.inj hget]

/-- **Once derailed, derailed for good.** -/
theorem derailed_step {bodies : List Bytes} {s : SFTP} {d d' : Parent} {c : Bytes}
    (h : Derailed bodies s d) (hc : c ≠ []) :
    Derailed bodies (parsePacket sha256 d' c s).1 d := by
  by_cases hd : d = d'
  · subst hd
    cases h with
    | wrong hcalls =>
      obtain ⟨news, honly⟩ := parsePacket_only sha256 d s hc
      refine Derailed.wrong fun hpre => hcalls ?_
      rw [honly.calls] at hpre
      exact (List.prefix_append _ _).trans hpre
    | late n body hcalls hbody hsize =>
      have hne : (s.buffer d).packetSize ≠ 0 := by
        rcases hsize with ⟨h, -⟩ | ⟨h, -⟩ <;> omega
      -- a call that completes the packet under way gets a body of the wrong length
      have hx : (s.buffer d).packetSize < c.length →
          ((s.buffer d).data ++ sliceTo c (s.buffer d).packetSize).length ≠ body.length := by
        intro hlt
        rw [List.length_append]
        rcases hsize with ⟨hpos, hsum⟩ | ⟨hneg, hgt⟩
        · unfold sliceTo
          rw [if_pos hpos.le, List.length_take]
          omega
        · omega
      rcases parsePacket_mid sha256 (c := c) hne with
        ⟨hlt, ⟨ht, -⟩ | ⟨hrest, ht⟩⟩ | ⟨hge, honly, hbuf⟩
      · rw [ht]
        exact derailed_of_call hcalls hbody (completed_spec sha256 d c s).1 (hx hlt)
      · rw [ht]
        obtain ⟨news, hnews⟩ : ∃ news, Only d s
            (startPacket sha256 d (sliceFrom c (s.buffer d).packetSize)
              (completed sha256 d c s)).1
            (((s.buffer d).data ++ sliceTo c (s.buffer d).packetSize) :: news) :=
          ⟨_, (completed_spec sha256 d c s).1.trans
            (startPacket_spec sha256 (completed sha256 d c s) hrest).1⟩
        exact derailed_of_call hcalls hbody hnews (hx hlt)
      · rcases hsize with ⟨hpos, hsum⟩ | ⟨hneg, -⟩
        · by_cases hz : (s.buffer d).packetSize - (c.length : Int) = 0
          · rw [if_pos hz] at honly
            refine derailed_of_call hcalls hbody honly ?_
            rw [List.length_append]
            omega
          · rw [if_neg hz] at honly
            refine Derailed.late n body ?_ hbody (Or.inl ?_)
            · rw [honly.calls, List.append_nil, hcalls]
            · rw [hbuf]
              simp only [List.length_append]
              push_cast
              omega
        · omega
  · obtain ⟨news, honly⟩ := parsePacket_only sha256 d' s hc
    have hb := honly.otherBuffer d hd
    have hk := honly.otherCalls d hd
    cases h with
    | wrong hcalls => exact Derailed.wrong (hk ▸ hcalls)
    | late n body hcalls hbody hsize =>
      exact Derailed.late n body (hk.trans hcalls) hbody (by rw [hb]; exact hsize)

/-- A chunk that does not fit, read from a packet boundary, derails. -/
theorem startPacket_misfit {d : Parent} {c rest : Bytes} {done todo : List Bytes} {s : SFTP}
    (hpack : Framable todo) (hcalls : s.callsOf d = done) (hc : c ≠ []) (hfit : ¬ FitsAt c)
    (h : frames todo = c ++ rest) :
    Derailed (done ++ todo) (startPacket sha256 d c s).1 d := by
  cases todo with
  | nil => exact absurd (List.append_eq_nil_iff.mp h.symm).1 hc
  | cons body later =>
    obtain ⟨hpos, hlt⟩ := hpack body List.mem_cons_self
    obtain ⟨honly, hbuf⟩ := startPacket_spec sha256 (d := d) s hc
    have htake : s.callsOf d = (done ++ body :: later).take done.length := by
      rw [List.take_left, hcalls]
    have hbody : (done ++ body :: later)[done.length]? = some body := by simp
    rcases Nat.lt_or_ge c.length 4 with hshort | hlong
    · -- part of the length field: it reads as a smaller length
      have hval := short_header_lt hpos h hshort
      have hdrop : c.drop 4 = [] := List.drop_eq_nil_of_le hshort.le
      have hsize : startSize c = intFromBytes c := by
        unfold startSize
        rw [hdrop, List.take_of_length_le hshort.le, List.length_nil]
        omega
      by_cases hz : startSize c = 0
      · rw [if_pos hz, hdrop] at honly
        exact derailed_of_call htake hbody honly (by rw [List.length_nil]; omega)
      · rw [if_neg hz] at honly
        refine Derailed.late done.length body ?_ hbody (Or.inl ?_)
        · rw [honly.calls, List.append_nil, htake]
        · rw [hbuf, hdrop, hsize]
          simp only [List.length_nil]
          omega
    · -- the chunk reaches past the packet
      obtain ⟨hval, -⟩ := frames_split hlt h hlong
      have hlen : 4 + body.length < c.length := by
        rw [← hval]
        unfold FitsAt at hfit
        omega
      have hsize : startSize c < 0 := by
        unfold startSize
        rw [hval, List.length_drop]
        omega
      rw [if_neg hsize.ne] at honly
      refine Derailed.late done.length body ?_ hbody (Or.inr ⟨by rw [hbuf]; exact hsize, ?_⟩)
      · rw [honly.calls, List.append_nil, htake]
      · rw [hbuf, List.length_drop]
        omega

/-- **A chunk that does not fit derails its direction.** -/
theorem parsePacket_misfit {d : Parent} {c rest : Bytes} {done todo : List Bytes} {s : SFTP}
    (hpack : Framable todo) (hcalls : s.callsOf d = done) (hc : c ≠ []) (hfit : ¬ Fits s (d, c))
    (hcomp : Completes sha256 s (d, c)) (h : Sync todo (c ++ rest) (s.buffer d)) :
    Derailed (done ++ todo) (parsePacket sha256 d c s).1 d := by
  unfold Fits at hfit
  simp only at hfit
  cases h with
  | idle hsize hrest =>
    rw [if_pos hsize] at hfit
    unfold parsePacket
    simp only [if_pos hsize]
    exact startPacket_misfit hpack hcalls hc hfit hrest
  | mid tail later htodo htail hsize hrest =>
    have htpos : 0 < tail.length := List.length_pos_of_ne_nil htail
    have hne : (s.buffer d).packetSize ≠ 0 := by rw [hsize]; omega
    rw [if_neg hne, Classical.not_imp] at hfit
    obtain ⟨hlt, hfit⟩ := hfit
    have hlen : tail.length < c.length := by rw [hsize] at hlt; exact_mod_cast hlt
    obtain ⟨more, rfl, hmore⟩ := append_split hrest hlen.le
    obtain ⟨hto, hfrom⟩ := slices_at more hsize
    obtain ⟨hdone, -⟩ := completed_spec sha256 d (tail ++ more) s
    rw [hfrom] at hfit
    rw [hto] at hdone
    rcases parsePacket_mid sha256 (c := tail ++ more) hne with ⟨-, hcase⟩ | ⟨hge, -⟩
    · have hmne : more ≠ [] := by
        rintro rfl
        simp at hlen
      rw [hfrom] at hcase
      rcases hcase with ⟨-, hraise | hnil⟩ | ⟨-, ht⟩
      · exact absurd (hcomp hne hlt) hraise
      · exact absurd hnil hmne
      · rw [ht]
        have hlater : Framable later := fun b hb => hpack b (by
          rw [htodo]
          exact List.mem_cons_of_mem _ hb)
        have hstart : Derailed (s.callsOf d ++ [(s.buffer d).data ++ tail] ++ later)
            (startPacket sha256 d more (completed sha256 d (tail ++ more) s)).1 d :=
          startPacket_misfit hlater hdone.calls hmne hfit hmore
        rwa [hcalls, List.append_assoc, List.singleton_append, ← htodo] at hstart
    · exact absurd hlt hge

/-! ## Whole runs -/

/-- Every direction is in step: the calls so far are its first packets, and its buffer is in step
with the chunks still to come. -/
def InStep (bodies : Parent → List Bytes) (s : SFTP) (chunks : List Chunk) : Prop :=
  ∀ d, ∃ todo, bodies d = s.callsOf d ++ todo ∧ Sync todo (bytesOf d chunks) (s.buffer d)

theorem bytesOf_cons_self (d : Parent) (c : Bytes) (chunks : List Chunk) :
    bytesOf d ((d, c) :: chunks) = c ++ bytesOf d chunks := by
  simp [bytesOf]

theorem bytesOf_cons_other {d d' : Parent} (c : Bytes) (chunks : List Chunk) (h : d' ≠ d) :
    bytesOf d' ((d, c) :: chunks) = bytesOf d' chunks := by
  simp [bytesOf, Ne.symm h]

theorem inStep_step {bodies : Parent → List Bytes} (hpack : ∀ d, Framable (bodies d)) {s : SFTP}
    {e : Chunk} {chunks : List Chunk} (hc : e.2 ≠ []) (hfit : Fits s e)
    (hcomp : Completes sha256 s e) (h : InStep bodies s (e :: chunks)) :
    InStep bodies (parsePacket sha256 e.1 e.2 s).1 chunks := by
  obtain ⟨d, c⟩ := e
  obtain ⟨todo, hbodies, hsync⟩ := h d
  rw [bytesOf_cons_self] at hsync
  have htodo : Framable todo := fun b hb => hpack d b (by
    rw [hbodies]
    exact List.mem_append_right _ hb)
  obtain ⟨done, todo', rfl, honly, hsync'⟩ := parsePacket_sync htodo hc hfit hcomp hsync
  intro d'
  by_cases hd : d' = d
  · subst hd
    exact ⟨todo', by rw [hbodies, honly.calls, List.append_assoc], hsync'⟩
  · obtain ⟨todo'', hbodies', hsync''⟩ := h d'
    rw [bytesOf_cons_other c chunks hd] at hsync''
    refine ⟨todo'', ?_, ?_⟩
    · rw [honly.otherCalls d' hd, hbodies']
    · rw [honly.otherBuffer d' hd]
      exact hsync''

/-- In step with nothing to come: everything has been handled. -/
theorem InStep.calls {bodies : Parent → List Bytes} {s : SFTP} (h : InStep bodies s [])
    (d : Parent) : s.callsOf d = bodies d := by
  obtain ⟨todo, hbodies, hsync⟩ := h d
  cases hsync with
  | idle _ hrest =>
    rw [hbodies, frames_eq_nil.mp (hrest.trans rfl), List.append_nil]
  | mid tail later _ htail _ hrest =>
    exact absurd (List.append_eq_nil_iff.mp hrest.symm).1 htail

/-- Once derailed, the calls are not the packets at the end of the run either. -/
theorem derailed_run {bodies : List Bytes} {d : Parent} {s t : SFTP} {chunks : List Chunk}
    (hne : ∀ e ∈ chunks, e.2 ≠ []) (h : Derailed bodies s d)
    (hrun : run (step sha256) s chunks = some t) : t.callsOf d ≠ bodies := by
  induction chunks generalizing s with
  | nil =>
    obtain rfl : s = t := by simpa using hrun
    exact h.calls_ne
  | cons e chunks ih =>
    obtain ⟨u, hu, hrest⟩ := run_cons.mp hrun
    obtain rfl := Option.some.inj hu
    exact ih (fun e' he' => hne e' (List.mem_cons_of_mem _ he'))
      (derailed_step h (hne e List.mem_cons_self)) hrest

/-- From any state in step, the calls are the packets iff the chunks to come fit. -/
theorem calls_iff_fits {bodies : Parent → List Bytes} (hpack : ∀ d, Framable (bodies d))
    {s t : SFTP} {chunks : List Chunk} (hne : ∀ e ∈ chunks, e.2 ≠ [])
    (hcomp : StepsMeet (step sha256) (Completes sha256) s chunks) (h : InStep bodies s chunks)
    (hrun : run (step sha256) s chunks = some t) :
    (∀ d, t.callsOf d = bodies d) ↔ StepsMeet (step sha256) Fits s chunks := by
  induction chunks generalizing s with
  | nil =>
    obtain rfl : s = t := by simpa using hrun
    exact ⟨fun _ => trivial, fun _ => h.calls⟩
  | cons e chunks ih =>
    obtain ⟨u, hu, hrest⟩ := run_cons.mp hrun
    have hue : (parsePacket sha256 e.1 e.2 s).1 = u := Option.some.inj hu
    have hce : e.2 ≠ [] := hne e List.mem_cons_self
    have hne' : ∀ e' ∈ chunks, e'.2 ≠ [] := fun e' he' => hne e' (List.mem_cons_of_mem _ he')
    by_cases hfit : Fits s e
    · have hu' := inStep_step hpack hce hfit hcomp.1 h
      rw [hue] at hu'
      rw [ih hne' (hcomp.2 u hu) hu' hrest]
      exact ⟨fun hm => ⟨hfit, fun v hv => Option.some.inj (hu.symm.trans hv) ▸ hm⟩,
        fun hm => hm.2 u hu⟩
    · refine ⟨fun hcalls => ?_, fun hm => absurd hm.1 hfit⟩
      obtain ⟨d, c⟩ := e
      obtain ⟨todo, hbodies, hsync⟩ := h d
      rw [bytesOf_cons_self] at hsync
      have htodo : Framable todo := fun b hb => hpack d b (by
        rw [hbodies]
        exact List.mem_append_right _ hb)
      have hder := parsePacket_misfit htodo rfl hce hfit hcomp.1 hsync
      rw [hue, ← hbodies] at hder
      exact absurd (hcalls d) (derailed_run hne' hder hrest)

/-! ## Every stream -/

/-- The packets of a stream: bodies of at least five bytes, as the length field admits. -/
def WellFormed (bodies : List Bytes) : Prop := ∀ b ∈ bodies, 5 ≤ b.length ∧ b.length < 2 ^ 32

instance (bodies : List Bytes) : Decidable (WellFormed bodies) :=
  inferInstanceAs (Decidable (∀ b ∈ bodies, _))

/-- Three packets the client sends; the server sends nothing. -/
def threePackets : Parent → List Bytes
  | .client => [[1, 0, 0, 0, 3], [1, 0, 0, 0, 4], [1, 0, 0, 0, 5]]
  | .server => []

/-- The first two packets arrive together. -/
def twoAtOnce : List Chunk :=
  [(.client, [0, 0, 0, 5, 1, 0, 0, 0, 3, 0, 0, 0, 5, 1, 0, 0, 0, 4]),
    (.client, [0, 0, 0, 5, 1, 0, 0, 0, 5])]

/-- **Two packets in one chunk are handled as one**, with the second length field in the body. -/
theorem framing_violated :
    (∀ d, WellFormed (threePackets d)) ∧ (∀ e ∈ twoAtOnce, e.2 ≠ []) ∧
      (∀ d, bytesOf d twoAtOnce = frames (threePackets d)) ∧
      (run (step fun _ => "") {} twoAtOnce).map (callsOf · .client) =
        some [[1, 0, 0, 0, 3, 0, 0, 0, 5, 1, 0, 0, 0, 4], [1, 0, 0, 0, 5]] ∧
      (run (step fun _ => "") {} twoAtOnce).map (callsOf · .client) ≠
        some (threePackets .client) := by
  refine ⟨?_, by decide +kernel, ?_, by decide +kernel, by decide +kernel⟩
  · intro d
    cases d <;> decide +kernel
  · intro d
    cases d <;> decide +kernel

/-- **When the packets are handled one by one.** Let the chunks be any split and interleaving of
the packets of the two directions, and let no exception of `handle_packet` discard the rest of a
chunk. Then the calls of `handle_packet` are the packets, in order, iff every chunk fits. -/
theorem framed_iff_fits {packets : Parent → List Bytes} {chunks : List Chunk} {s : SFTP}
    (hpackets : ∀ d, WellFormed (packets d)) (hne : ∀ e ∈ chunks, e.2 ≠ [])
    (hbytes : ∀ d, bytesOf d chunks = frames (packets d))
    (hcomp : StepsMeet (step sha256) (Completes sha256) {} chunks)
    (hrun : run (step sha256) {} chunks = some s) :
    (∀ d, s.callsOf d = packets d) ↔ StepsMeet (step sha256) Fits {} chunks := by
  have hpack : ∀ d, Framable (packets d) := fun d b hb => by
    have := hpackets d b hb
    omega
  have hstart : InStep packets ({} : SFTP) chunks := fun d => by
    refine ⟨packets d, rfl, Sync.idle ?_ (hbytes d).symm⟩
    cases d <;> rfl
  exact calls_iff_fits hpack hne hcomp hstart hrun

/-- The same packets, the second in two chunks and the third begun by its end. -/
def splitInside : List Chunk :=
  [(.client, [0, 0, 0, 5, 1, 0, 0, 0, 3]), (.client, [0, 0, 0, 5, 1, 0]),
    (.client, [0, 0, 4, 0, 0, 0, 5, 1]), (.client, [0, 0, 0, 5])]

/-- Every chunk of `splitInside` fits, and the packets are handled one by one. -/
theorem framed_splitInside :
    let s := (run (step fun _ => "") {} splitInside).get (by decide +kernel)
    s.callsOf .client = threePackets .client ∧ s.callsOf .server = threePackets .server := by
  have h : ∀ d, ((run (step fun _ => "") {} splitInside).get (by decide +kernel)).callsOf d =
      threePackets d := by
    refine (framed_iff_fits ?_ (by decide +kernel) ?_ (by decide +kernel)
      (Option.some_get (by decide +kernel)).symm).mpr (by decide +kernel)
    · intro d
      cases d <;> decide +kernel
    · intro d
      cases d <;> decide +kernel
  exact ⟨h .client, h .server⟩

end SFTP

end Cowrie.SshProxy
