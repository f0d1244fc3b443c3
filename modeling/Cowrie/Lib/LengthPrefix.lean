import Cowrie.Bytes

/-!
# Length-prefixed framing

A stream of frames: each body is preceded by its length, in four big-endian bytes. The lemmas say
what a reader sees who has received only the first bytes `c` of such a stream: with four bytes or
more the length field is complete (`frames_split`), with fewer it has a proper prefix of it, which
reads as a smaller number (`short_header_lt`).
-/

namespace Cowrie.Lib

/-- One frame: the length of the body and the body. -/
def frame (body : Bytes) : Bytes := intToBytes 4 body.length ++ body

/-- The frames of a list of bodies, one after the other. -/
def frames (bodies : List Bytes) : Bytes := bodies.flatMap frame

@[simp] theorem frames_nil : frames [] = [] := rfl

theorem frames_cons (body : Bytes) (bodies : List Bytes) :
    frames (body :: bodies) = intToBytes 4 body.length ++ (body ++ frames bodies) := by
  unfold frames frame
  rw [List.flatMap_cons, List.append_assoc]

theorem frames_eq_nil {bodies : List Bytes} : frames bodies = [] ↔ bodies = [] := by
  cases bodies with
  | nil => simp
  | cons body bodies =>
    rw [frames_cons]
    constructor
    · intro h
      have := congrArg List.length h
      simp at this
    · intro h
      cases h

/-- **Four received bytes are the length field** of the first frame, and what follows them is its
body and the next frames. -/
theorem frames_split {body : Bytes} {bodies : List Bytes} {c rest : Bytes}
    (hlen : body.length < 2 ^ 32) (h : frames (body :: bodies) = c ++ rest) (hc : 4 ≤ c.length) :
    intFromBytes (c.take 4) = body.length ∧ body ++ frames bodies = c.drop 4 ++ rest := by
  rw [frames_cons] at h
  have htake : c.take 4 = intToBytes 4 body.length := by
    have := congrArg (List.take 4) h
    rw [List.take_left' (intToBytes_length 4 _), List.take_append_of_le_length hc] at this
    exact this.symm
  have hdrop : body ++ frames bodies = c.drop 4 ++ rest := by
    have := congrArg (List.drop 4) h
    rwa [List.drop_left' (intToBytes_length 4 _), List.drop_append_of_le_length hc] at this
  refine ⟨?_, hdrop⟩
  rw [htake, intFromBytes_intToBytes]
  exact Nat.mod_eq_of_lt (by omega)

/-- **Fewer than four received bytes** read as a number below the length. -/
theorem short_header_lt {body : Bytes} {bodies : List Bytes} {c rest : Bytes}
    (hpos : 0 < body.length) (h : frames (body :: bodies) = c ++ rest) (hc : c.length < 4) :
    intFromBytes c < body.length := by
  rw [frames_cons] at h
  have hpre : c = (intToBytes 4 body.length).take c.length := by
    have := congrArg (List.take c.length) h
    rw [List.take_left, List.take_append_of_le_length (by simp; omega)] at this
    exact this.symm
  rw [hpre]
  exact intFromBytes_take_lt hc hpos

/-- Two splits of one list: the longer first part is the shorter one and more. -/
theorem append_split {a b c d : Bytes} (h : a ++ b = c ++ d) (hlen : c.length ≤ a.length) :
    ∃ more, a = c ++ more ∧ d = more ++ b := by
  rcases List.append_eq_append_iff.mp h with ⟨more, rfl, hb⟩ | hcase
  · obtain rfl : more = [] := by
      rw [← List.length_eq_zero_iff]
      rw [List.length_append] at hlen
      omega
    exact ⟨[], by simp, by simpa using hb.symm⟩
  · exact hcase

end Cowrie.Lib
