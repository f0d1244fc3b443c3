import Mathlib.Data.List.Basic
import Mathlib.Data.List.Infix
import Mathlib.Tactic.Ring

/-!
# Bytes, integers and text

Python's `bytes` is `List UInt8`, `str` is `String`. `intFromBytes` is
`int.from_bytes(b, byteorder="big")`, `intToBytes k` its inverse on `k` bytes; `decode` and
`encode` are strict UTF-8, as `bytes.decode()` and `str.encode()` are. `sliceTo` and `sliceFrom`
are `b[:n]` and `b[n:]` for any integer `n`, negative ones counting from the end. `encodeChr` is
`chr(x).encode()`, `replace` is `bytes.replace`, and `unicodeEscape` is `b.decode("unicode-escape")`
to code points (surrogates included), with the Unicode name table as a parameter.

* `intFromBytes_intToBytes`: reading back what was written.
* `decode_append`: bytes after a text are text iff the whole is.
* `intFromBytes_take_lt`: a proper prefix of a big-endian number reads as a smaller one.
-/

namespace Cowrie

abbrev Bytes := List UInt8

instance nontrivialUInt8 : Nontrivial UInt8 := ⟨0, 1, by decide⟩

/-- `int.from_bytes(b, byteorder="big")`. -/
def intFromBytes (b : Bytes) : Nat := b.foldl (fun n x => 256 * n + x.toNat) 0

/-- The `k` low bytes of `n`, big-endian. -/
def intToBytes : Nat → Nat → Bytes
  | 0, _ => []
  | k + 1, n => intToBytes k (n / 256) ++ [UInt8.ofNat n]

/-- `b.decode()`; `none` is a `UnicodeDecodeError`. -/
def decode (b : Bytes) : Option String := String.fromUTF8? ⟨⟨b⟩⟩

/-- `s.encode()`. -/
def encode (s : String) : Bytes := s.toByteArray.data.toList

/-- `b[:n]`. -/
def sliceTo (b : Bytes) (n : Int) : Bytes :=
  if 0 ≤ n then b.take n.toNat else b.take (b.length - n.natAbs)

/-- `b[n:]`. -/
def sliceFrom (b : Bytes) (n : Int) : Bytes :=
  if 0 ≤ n then b.drop n.toNat else b.drop (b.length - n.natAbs)

/-- `needle in haystack`. -/
def Bytes.contains (needle haystack : Bytes) : Bool := decide (needle <:+: haystack)

/-- `chr(x).encode()`: two bytes from 128 on. -/
def encodeChr (x : UInt8) : Bytes := if x < 128 then [x] else [192 + x / 64, 128 + x % 64]

/-- `bytes.replace`, with `skip` bytes of a match still to drop. -/
def replaceFrom (old new : Bytes) : Nat → Bytes → Bytes
  | _, [] => []
  | skip + 1, _ :: b => replaceFrom old new skip b
  | 0, x :: b =>
    if old.isPrefixOf (x :: b) then new ++ replaceFrom old new (old.length - 1) b
    else x :: replaceFrom old new 0 b

/-- `b.replace(old, new)`, for a non-empty `old`. -/
def replace (b old new : Bytes) : Bytes := replaceFrom old new 0 b

/-- The value of a hexadecimal digit. -/
def hexDigit (x : UInt8) : Option Nat :=
  if 48 ≤ x ∧ x ≤ 57 then some (x.toNat - 48)
  else if 97 ≤ x ∧ x ≤ 102 then some (x.toNat - 87)
  else if 65 ≤ x ∧ x ≤ 70 then some (x.toNat - 55)
  else none

/-- `count` hexadecimal digits and what follows them. -/
def hexEscape (count : Nat) (b : Bytes) : Option (Nat × Bytes) :=
  if b.length < count then none
  else ((b.take count).foldlM (fun n x => (hexDigit x).map (16 * n + ·)) 0).map (·, b.drop count)

/-- Up to three octal digits, the first being `d`. -/
def octalEscape (d : UInt8) (b : Bytes) : Nat × Bytes :=
  let digits := (b.take 2).takeWhile fun x => 48 ≤ x ∧ x ≤ 55
  (digits.foldl (fun n x => 8 * n + (x.toNat - 48)) (d.toNat - 48), b.drop digits.length)

/-- The escape after a backslash: the code point it stands for, if any, and what follows. -/
def escape (names : Bytes → Option Nat) : Bytes → Option (List Nat × Bytes)
  | [] => none
  | 10 :: b => some ([], b)
  | 92 :: b => some ([92], b)
  | 39 :: b => some ([39], b)
  | 34 :: b => some ([34], b)
  | 97 :: b => some ([7], b)
  | 98 :: b => some ([8], b)
  | 116 :: b => some ([9], b)
  | 110 :: b => some ([10], b)
  | 118 :: b => some ([11], b)
  | 102 :: b => some ([12], b)
  | 114 :: b => some ([13], b)
  | 120 :: b => (hexEscape 2 b).map fun r => ([r.1], r.2)
  | 117 :: b => (hexEscape 4 b).map fun r => ([r.1], r.2)
  | 85 :: b => (hexEscape 8 b).bind fun r => if r.1 ≤ 0x10ffff then some ([r.1], r.2) else none
  | 78 :: 123 :: b =>
    if 125 ∈ b then
      (names (b.takeWhile (· != 125))).map fun n => ([n], (b.dropWhile (· != 125)).drop 1)
    else none
  | 78 :: _ => none
  | x :: b =>
    if 48 ≤ x ∧ x ≤ 55 then let r := octalEscape x b; some ([r.1], r.2)
    else some ([92, x.toNat], b)

/-- `unicodeEscape` on at most `fuel` characters; each escape consumes at least one byte. -/
def unicodeEscapeFuel (names : Bytes → Option Nat) : Nat → Bytes → Option (List Nat)
  | _, [] => some []
  | 0, _ :: _ => none
  | fuel + 1, x :: b =>
    if x = 92 then
      (escape names b).bind fun r => (unicodeEscapeFuel names fuel r.2).map (r.1 ++ ·)
    else (unicodeEscapeFuel names fuel b).map (x.toNat :: ·)

/-- `b.decode("unicode-escape")`; `none` is a `UnicodeDecodeError`. -/
def unicodeEscape (names : Bytes → Option Nat) (b : Bytes) : Option (List Nat) :=
  unicodeEscapeFuel names b.length b

theorem decode_nil : decode [] = some "" := by decide +kernel

theorem encode_of_decode {b : Bytes} {s : String} (h : decode b = some s) : encode s = b := by
  unfold decode String.fromUTF8? at h
  split at h
  · obtain rfl := Option.some.inj h
    rfl
  · exact absurd h (by simp)

theorem encode_eq_flatMap (s : String) : encode s = s.toList.flatMap String.utf8EncodeChar := by
  unfold encode
  rw [← String.utf8Encode_toList]
  simp [List.utf8Encode]

theorem encode_append (s t : String) : encode (s ++ t) = encode s ++ encode t := by
  simp [encode]

theorem isValidUTF8_append_iff (l : List Char) (b : ByteArray) :
    (l.utf8Encode ++ b).IsValidUTF8 ↔ b.IsValidUTF8 := by
  induction l with
  | nil => simp
  | cons c l ih =>
    rw [List.utf8Encode_cons, ByteArray.append_assoc,
      ByteArray.isValidUTF8_utf8Encode_singleton_append_iff, ih]

theorem decode_encode (s : String) : decode (encode s) = some s := by
  unfold decode encode String.fromUTF8?
  have h : (⟨⟨s.toByteArray.data.toList⟩⟩ : ByteArray) = s.toByteArray := rfl
  rw [h, dif_pos s.isValidUTF8]
  rfl

theorem encode_injective {s t : String} (h : encode s = encode t) : s = t := by
  have hdecode := congrArg decode h
  rw [decode_encode, decode_encode] at hdecode
  exact Option.some.inj hdecode

theorem decode_isSome (b : Bytes) : (decode b).isSome ↔ ByteArray.IsValidUTF8 ⟨⟨b⟩⟩ := by
  unfold decode String.fromUTF8?
  by_cases h : ByteArray.IsValidUTF8 ⟨⟨b⟩⟩
  · rw [dif_pos h]
    exact iff_of_true rfl h
  · rw [dif_neg h]
    exact iff_of_false (by simp) h

/-- Bytes after a text are text iff the whole is. -/
theorem decode_append (s : String) (b : Bytes) :
    decode (encode s ++ b) = (decode b).map (s ++ ·) := by
  cases hb : decode b with
  | some t =>
    rw [← encode_of_decode hb, ← encode_append, decode_encode]
    rfl
  | none =>
    have hnot : ¬ (decode b).isSome := by simp [hb]
    rw [decode_isSome] at hnot
    have hwhole : ¬ (decode (encode s ++ b)).isSome := by
      rw [decode_isSome]
      have hcat : (⟨⟨encode s ++ b⟩⟩ : ByteArray) = s.toList.utf8Encode ++ ⟨⟨b⟩⟩ := by
        rw [String.utf8Encode_toList]
        apply ByteArray.ext
        simp [encode]
      rw [hcat, isValidUTF8_append_iff]
      exact hnot
    simpa using hwhole
example : unicodeEscape (fun _ => none) (encode "a\\x41\\u00e9\\q\\101") =
    some [97, 65, 233, 92, 113, 65] := by decide +kernel

@[simp] theorem intToBytes_length : ∀ k n : Nat, (intToBytes k n).length = k
  | 0, _ => rfl
  | k + 1, n => by
    unfold intToBytes
    rw [List.length_append, intToBytes_length k, List.length_singleton]

theorem intFromBytes_concat (b : Bytes) (x : UInt8) :
    intFromBytes (b ++ [x]) = 256 * intFromBytes b + x.toNat := by
  unfold intFromBytes
  rw [List.foldl_append, List.foldl_cons, List.foldl_nil]

/-- **Reading back a big-endian number.** -/
theorem intFromBytes_intToBytes : ∀ k n : Nat, intFromBytes (intToBytes k n) = n % 256 ^ k
  | 0, n => by simp [intToBytes, intFromBytes, Nat.mod_one]
  | k + 1, n => by
    unfold intToBytes
    have hx : (UInt8.ofNat n).toNat = n % 256 := rfl
    rw [intFromBytes_concat, intFromBytes_intToBytes k, hx, pow_succ, mul_comm (256 ^ k) 256,
      Nat.mod_mul]
    ring

/-- Cutting bytes off the end of a big-endian number divides it. -/
theorem intToBytes_take : ∀ (k j n : Nat), j ≤ k →
    (intToBytes k n).take j = intToBytes j (n / 256 ^ (k - j))
  | 0, j, n, h => by
    obtain rfl : j = 0 := by omega
    rfl
  | k + 1, j, n, h => by
    rcases Nat.lt_or_ge k j with hk | hk
    · obtain rfl : j = k + 1 := by omega
      rw [List.take_of_length_le (by simp), Nat.sub_self, pow_zero, Nat.div_one]
    · have hlen : j ≤ (intToBytes k (n / 256)).length := by
        rw [intToBytes_length]
        exact hk
      conv_lhs => unfold intToBytes
      rw [List.take_append_of_le_length hlen, intToBytes_take k j _ hk, Nat.div_div_eq_div_mul,
        show k + 1 - j = (k - j) + 1 by omega, pow_succ']

/-- A proper prefix of a big-endian number reads as a smaller one. -/
theorem intFromBytes_take_lt {k j n : Nat} (hj : j < k) (hn : 0 < n) :
    intFromBytes ((intToBytes k n).take j) < n := by
  rw [intToBytes_take k j n hj.le, intFromBytes_intToBytes]
  refine (Nat.mod_le _ _).trans_lt (Nat.div_lt_self hn ?_)
  exact Nat.one_lt_pow (by omega) (by norm_num)

/-- The high bytes and the low ones. -/
theorem intToBytes_add (j n : Nat) :
    ∀ k, intToBytes (j + k) n = intToBytes j (n / 256 ^ k) ++ intToBytes k n
  | 0 => by simp [intToBytes]
  | k + 1 => by
    rw [← Nat.add_assoc, intToBytes, intToBytes_add j (n / 256) k, Nat.div_div_eq_div_mul, ← pow_succ',
      intToBytes, List.append_assoc]

theorem intToBytes_mod : ∀ k n : Nat, intToBytes k (n % 256 ^ k) = intToBytes k n
  | 0, _ => rfl
  | k + 1, n => by
    have hlow : UInt8.ofNat (n % 256 ^ (k + 1)) = UInt8.ofNat n := by
      rw [← UInt8.toNat_inj, UInt8.toNat_ofNat', UInt8.toNat_ofNat']
      exact Nat.mod_mod_of_dvd n (dvd_pow_self 256 (Nat.succ_ne_zero k))
    rw [intToBytes, intToBytes, hlow, pow_succ', Nat.mod_mul_right_div_self, intToBytes_mod k]

end Cowrie
