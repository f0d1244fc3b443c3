import Cowrie.SshProxy.SftpPackets
import Mathlib.Data.Nat.Prime.Basic

/-!
# The command recorded for a SETSTAT (`sftp.py:187-189`, `288-311`)

`extract_attrs` reads the flags of an ATTRS and then, if the permissions flag is set, the next four
bytes as the mode, else, if the owner flag is set, the next eight as `uid` and `gid`. Protocol
version 3 puts the fields in the order size, owner, permissions, times, so the bytes read first belong
to an earlier field whenever one is present. The mode is written out as at least nine binary digits
and cut from the left, so a mode with more digits (a file's type, set-uid) is cut in the wrong places.

* `Attrs` is a well-formed ATTRS, `Attrs.encode` its bytes.
* `permsText` is the text that `extract_attrs` makes of a number, **`permsText_eq_iff`** when it is that
  of three octal digits.
* **`setstat_command_iff`**: for which attributes the recorded command is the right one.
-/

namespace Cowrie.SshProxy

open Cowrie.Lib

/-! ## Binary digits -/

theorem foldl_bin (l : List Char) (n : Nat) :
    l.foldl (fun n c => 2 * n + if c = '1' then 1 else 0) n = n * 2 ^ l.length + intOfBin l := by
  unfold intOfBin
  induction l generalizing n with
  | nil => simp
  | cons c l ih =>
    rw [List.foldl_cons, List.foldl_cons, ih, ih (2 * 0 + _), List.length_cons, Nat.pow_succ]
    ring

theorem intOfBin_append (l m : List Char) :
    intOfBin (l ++ m) = intOfBin l * 2 ^ m.length + intOfBin m := by
  rw [intOfBin, List.foldl_append, foldl_bin]
  rfl

theorem intOfBin_lt (l : List Char) : intOfBin l < 2 ^ l.length := by
  induction l using List.reverseRecOn with
  | nil => simp [intOfBin]
  | append_singleton l c ih =>
    have hc : intOfBin [c] < 2 := by
      unfold intOfBin
      simp only [List.foldl_cons, List.foldl_nil]
      split_ifs <;> omega
    rw [intOfBin_append, List.length_append, List.length_singleton, Nat.pow_succ]
    omega

/-- The first digits of a number. -/
theorem intOfBin_take (l : List Char) (i : Nat) :
    intOfBin (l.take i) = intOfBin l / 2 ^ (l.drop i).length := by
  have hcut := intOfBin_append (l.take i) (l.drop i)
  rw [List.take_append_drop] at hcut
  rw [hcut, Nat.mul_comm, Nat.mul_add_div (Nat.two_pow_pos _), Nat.div_eq_of_lt (intOfBin_lt _),
    Nat.add_zero]

/-- The last ones. -/
theorem intOfBin_drop (l : List Char) (i : Nat) :
    intOfBin (l.drop i) = intOfBin l % 2 ^ (l.drop i).length := by
  have hcut := intOfBin_append (l.take i) (l.drop i)
  rw [List.take_append_drop] at hcut
  rw [hcut, Nat.mul_comm, Nat.mul_add_mod, Nat.mod_eq_of_lt (intOfBin_lt _)]

theorem intOfBin_toDigits (n : Nat) : intOfBin (Nat.toDigits 2 n) = n := by
  induction n using Nat.strongRecOn with
  | ind n ih =>
    have hdigit : ∀ d < 2, intOfBin [Nat.digitChar d] = d := by decide
    by_cases hn : n < 2
    · rw [Nat.toDigits_of_lt_base hn]
      exact hdigit n hn
    · rw [Nat.toDigits_of_base_le (by omega) (by omega), intOfBin_append, ih (n / 2) (by omega),
        hdigit (n % 2) (Nat.mod_lt n (by omega)), List.length_singleton]
      omega

theorem intOfBin_formatBin (width n : Nat) : intOfBin (formatBin width n) = n := by
  have hzeros : ∀ k, intOfBin (List.replicate k '0') = 0 := by
    intro k
    induction k with
    | zero => rfl
    | succ k ih =>
      rw [List.replicate_succ', intOfBin_append, ih]
      rfl
  unfold formatBin
  rw [List.leftpad, intOfBin_append, hzeros, intOfBin_toDigits]
  omega

/-- A number has as many digits as it needs, and at least `width`. -/
theorem formatBin_length_le {width n k : Nat} (hk : 0 < k) (hwidth : width ≤ k) :
    (formatBin width n).length ≤ k ↔ n < 2 ^ k := by
  unfold formatBin
  rw [List.length_leftpad, max_le_iff, and_iff_right hwidth]
  exact Nat.length_toDigits_le_iff (by omega) hk

theorem le_formatBin_length (width n : Nat) : width ≤ (formatBin width n).length := by
  unfold formatBin
  rw [List.length_leftpad]
  exact le_max_left _ _

/-! ## The text of a mode -/

/-- What `extract_attrs` writes after `chmod`. -/
def permsText (n : Nat) : String :=
  let perms := formatBin 9 n
  toString (intOfBin (perms.take 3)) ++ toString (intOfBin ((perms.drop 3).take 3)) ++
    toString (intOfBin (perms.drop 6))

/-- Three octal digits. -/
def octal (v : Nat) : String := toString (v / 64) ++ toString (v / 8 % 8) ++ toString (v % 8)

/-- `n` is cut into the digits of `v`: it is `v`, or `v` with zeros put in before its last three bits. -/
def CutAs (n v : Nat) : Prop := n = v ∨ 256 ≤ v ∧ ∃ k, 4 ≤ k ∧ n = v / 8 * 2 ^ k + v % 8

theorem toString_injective {m n : Nat} (h : toString m = toString n) : m = n := by
  have hlist := congrArg String.toList h
  rw [Nat.toString_eq_ofList_toDigits, Nat.toString_eq_ofList_toDigits, String.toList_ofList,
    String.toList_ofList] at hlist
  have hvalue := congrArg (fun l => Nat.ofDigitChars 10 l 0) hlist
  simpa only [Nat.ofDigitChars_ten_toDigits] using hvalue

theorem toString_length_of_lt {n : Nat} (h : n < 8) : (toString n).toList.length = 1 := by
  rw [Nat.toString_eq_ofList_toDigits, String.toList_ofList, Nat.toDigits_of_lt_base (by omega)]
  rfl

/-- The first two digits take one character each. -/
theorem digits_eq_iff {a b c x y z : Nat} (ha : a < 8) (hb : b < 8) (hx : x < 8) (hy : y < 8) :
    toString a ++ toString b ++ toString c = toString x ++ toString y ++ toString z ↔
      a = x ∧ b = y ∧ c = z := by
  constructor
  · intro h
    have hlist := congrArg String.toList h
    simp only [String.toList_append] at hlist
    obtain ⟨hfirst, hlast⟩ := List.append_inj hlist (by
      simp only [List.length_append, toString_length_of_lt, ha, hb, hx, hy])
    obtain ⟨hone, htwo⟩ := List.append_inj hfirst (by
      rw [toString_length_of_lt ha, toString_length_of_lt hx])
    exact ⟨toString_injective (String.toList_injective hone),
      toString_injective (String.toList_injective htwo),
      toString_injective (String.toList_injective hlast)⟩
  · rintro ⟨rfl, rfl, rfl⟩
    rfl

theorem eight_le_two_pow {k : Nat} (hk : 3 ≤ k) : 8 ≤ 2 ^ k :=
  Nat.pow_le_pow_right (n := 2) (by omega) hk

/-- The three digits, when `k` bits are left for the last one. -/
theorem cut_digits_iff {n v k : Nat} (hk : 3 ≤ k) :
    (n / 2 ^ (k + 3) = v / 64 ∧ n % 2 ^ (k + 3) / 2 ^ k = v / 8 % 8 ∧ n % 2 ^ k = v % 8) ↔
      n = v / 8 * 2 ^ k + v % 8 := by
  have height := eight_le_two_pow hk
  have hfirst : n / 2 ^ (k + 3) = n / 2 ^ k / 8 := by rw [Nat.pow_add, Nat.div_div_eq_div_mul]
  have hsecond : n % 2 ^ (k + 3) / 2 ^ k = n / 2 ^ k % 8 := by
    rw [Nat.pow_add, Nat.mod_mul_right_div_self]
  have hcut := Nat.div_add_mod n (2 ^ k)
  rw [hfirst, hsecond]
  constructor
  · rintro ⟨hone, htwo, hthree⟩
    have hquot : n / 2 ^ k = v / 8 := by omega
    rw [hquot, hthree, Nat.mul_comm] at hcut
    exact hcut.symm
  · intro hn
    have hlast : v % 8 < 2 ^ k := by omega
    have hquot : n / 2 ^ k = v / 8 := by
      rw [hn, Nat.mul_comm, Nat.mul_add_div (by omega), Nat.div_eq_of_lt hlast, Nat.add_zero]
    have hrest : n % 2 ^ k = v % 8 := by
      rw [hn, Nat.mul_comm, Nat.mul_add_mod, Nat.mod_eq_of_lt hlast]
    exact ⟨by omega, by omega, hrest⟩

/-- With as many bits as the number has digits beyond the first six. -/
theorem cut_length_iff {n v : Nat} (hv : v < 512) :
    n = v / 8 * 2 ^ ((formatBin 9 n).length - 6) + v % 8 ↔ CutAs n v := by
  have hnine := le_formatBin_length 9 n
  have hle : ∀ k, 9 ≤ k → ((formatBin 9 n).length ≤ k ↔ n < 2 ^ k) := fun k hk =>
    formatBin_length_le (by omega) hk
  generalize (formatBin 9 n).length = len at *
  constructor
  · intro hn
    by_cases hlen : len = 9
    · subst hlen
      exact .inl (by omega)
    · obtain ⟨k, rfl⟩ : ∃ k, len = k + 6 := ⟨len - 6, by omega⟩
      rw [Nat.add_sub_cancel] at hn
      have height : 8 ≤ 2 ^ k := eight_le_two_pow (by omega)
      have hlarge : ¬ n < 2 ^ k * 32 := by
        rw [show 2 ^ k * 32 = 2 ^ (k + 5) from (Nat.pow_add 2 k 5).symm, ← hle (k + 5) (by omega)]
        omega
      refine .inr ⟨?_, k, by omega, hn⟩
      by_contra hsmall
      have hmul : v / 8 * 2 ^ k ≤ 31 * 2 ^ k := Nat.mul_le_mul_right _ (by omega)
      omega
  · rintro (rfl | ⟨hlarge, k, hk, hn⟩)
    · have hlen := (hle 9 (by omega)).mpr hv
      obtain rfl : len = 9 := by omega
      omega
    · have height : 8 ≤ 2 ^ k := eight_le_two_pow (by omega)
      have hlower : 32 * 2 ^ k ≤ v / 8 * 2 ^ k := Nat.mul_le_mul_right _ (by omega)
      have hupper : v / 8 * 2 ^ k ≤ 63 * 2 ^ k := Nat.mul_le_mul_right _ (by omega)
      have hfive : 2 ^ (k + 5) = 2 ^ k * 32 := Nat.pow_add 2 k 5
      have hsix : 2 ^ (k + 6) = 2 ^ k * 64 := Nat.pow_add 2 k 6
      have hlen : len = k + 6 := by
        have h₁ := hle (k + 5) (by omega)
        have h₂ := hle (k + 6) (by omega)
        omega
      rw [hlen, Nat.add_sub_cancel]
      exact hn

/-- **The text is right** exactly if the number is the mode's nine bits, or looks like them. -/
theorem permsText_eq_iff {n v : Nat} (hv : v < 512) : permsText n = octal v ↔ CutAs n v := by
  have hnine := le_formatBin_length 9 n
  have hlt : ∀ l : List Char, intOfBin (l.take 3) < 8 := fun l =>
    (intOfBin_lt _).trans_le (Nat.pow_le_pow_right (n := 2) (by omega) (List.length_take_le 3 l))
  unfold permsText octal
  simp only
  rw [digits_eq_iff (hlt _) (hlt _) (by omega) (by omega), intOfBin_take, intOfBin_take, intOfBin_drop,
    intOfBin_drop, intOfBin_formatBin, List.drop_drop, List.length_drop, List.length_drop,
    show (formatBin 9 n).length - 3 = (formatBin 9 n).length - 6 + 3 by omega,
    cut_digits_iff (by omega), cut_length_iff hv]

/-- A mode with more than nine bits is never logged as its nine low bits. -/
theorem cutAs_mod_iff (mode : Nat) : CutAs mode (mode % 512) ↔ mode < 512 := by
  constructor
  · rintro (heq | ⟨hlarge, k, hk, hn⟩)
    · omega
    · exfalso
      obtain ⟨j, rfl⟩ : ∃ j, k = j + 4 := ⟨k - 4, by omega⟩
      have hpow : mode % 512 / 8 * 2 ^ (j + 4) = 16 * (mode % 512 / 8 * 2 ^ j) := by
        rw [Nat.pow_add]
        ring
      have hodd : mode % 512 / 8 * (2 * 2 ^ j - 1) = 2 * (mode % 512 / 8 * 2 ^ j) - mode % 512 / 8 := by
        rw [Nat.mul_sub, Nat.mul_one]
        ring_nf
      -- both readings agree modulo 512, so the first two digits would vanish modulo 64
      have hdvd : 64 ∣ mode % 512 / 8 * (2 * 2 ^ j - 1) := by
        rw [hodd]
        omega
      have hcoprime : Nat.Coprime (2 ^ 6) (2 * 2 ^ j - 1) := by
        refine Nat.Coprime.pow_left 6 (Nat.coprime_two_left.mpr ?_)
        have hpos := Nat.two_pow_pos j
        exact Nat.odd_iff.mpr (by omega)
      have hzero := hcoprime.dvd_of_dvd_mul_right hdvd
      omega
  · intro hlt
    exact .inl (Nat.mod_eq_of_lt hlt).symm

/-! ## Attributes -/

/-- An ATTRS of protocol version 3; a field that is there has its flag set. -/
structure Attrs where
  size : Option UInt64
  /-- `uid` and `gid`. -/
  owner : Option (UInt32 × UInt32)
  permissions : Option UInt32
  /-- `atime` and `mtime`. -/
  times : Option (UInt32 × UInt32)
  deriving DecidableEq

namespace Attrs

def flags (a : Attrs) : Nat :=
  a.size.isSome.toNat + 2 * a.owner.isSome.toNat + 4 * a.permissions.isSome.toNat +
    8 * a.times.isSome.toNat

/-- Two numbers of four bytes. -/
def pair (p : UInt32 × UInt32) : Bytes := intToBytes 4 p.1.toNat ++ intToBytes 4 p.2.toNat

def bytes (a : Attrs) : Bytes :=
  intToBytes 4 a.flags ++
    (a.size.elim [] (fun size => intToBytes 8 size.toNat) ++
      (a.owner.elim [] pair ++
        (a.permissions.elim [] (fun mode => intToBytes 4 mode.toNat) ++ a.times.elim [] pair)))

/-- What follows the flags, in words of four bytes. -/
def words (a : Attrs) : List Nat :=
  a.size.elim [] (fun size => [size.toNat / 2 ^ 32, size.toNat % 2 ^ 32]) ++
    (a.owner.elim [] (fun p => [p.1.toNat, p.2.toNat]) ++
      (a.permissions.elim [] (fun mode => [mode.toNat]) ++
        a.times.elim [] fun p => [p.1.toNat, p.2.toNat]))

theorem flags_lt (a : Attrs) : a.flags < 16 := by
  have htwo : ∀ b : Bool, b.toNat ≤ 1 := Bool.toNat_le
  have h₁ := htwo a.size.isSome
  have h₂ := htwo a.owner.isSome
  have h₃ := htwo a.permissions.isSome
  have h₄ := htwo a.times.isSome
  unfold flags
  omega

/-- The bits that `extract_attrs` looks at. -/
theorem formatBin_flags (a : Attrs) :
    ((formatBin 8 a.flags)[5]? = some '1' ↔ a.permissions.isSome = true) ∧
      ((formatBin 8 a.flags)[6]? = some '1' ↔ a.owner.isSome = true) := by
  unfold flags
  generalize a.size.isSome = size
  generalize a.owner.isSome = owner
  generalize a.permissions.isSome = permissions
  generalize a.times.isSome = times
  revert size owner permissions times
  decide +kernel

theorem words_lt {a : Attrs} {w : Nat} (h : w ∈ a.words) : w < 256 ^ 4 := by
  obtain ⟨size, owner, permissions, times⟩ := a
  have hsize : ∀ n : UInt64, n.toNat / 2 ^ 32 < 2 ^ 32 ∧ n.toNat % 2 ^ 32 < 2 ^ 32 := fun n => by
    have hlt := n.toNat_lt
    omega
  have hword : ∀ n : UInt32, n.toNat < 2 ^ 32 := UInt32.toNat_lt
  cases size <;> cases owner <;> cases permissions <;> cases times <;>
    simp only [words, Option.elim_none, Option.elim_some, List.nil_append, List.cons_append,
      List.mem_cons, List.not_mem_nil, or_false] at h <;>
    grind

theorem bytes_eq (a : Attrs) : a.bytes = intToBytes 4 a.flags ++ a.words.flatMap (intToBytes 4) := by
  obtain ⟨size, owner, permissions, times⟩ := a
  have hsplit : ∀ n, intToBytes 8 n = intToBytes 4 (n / 2 ^ 32) ++ intToBytes 4 (n % 2 ^ 32) := fun n =>
    (intToBytes_add 4 n 4).trans (congrArg _ (intToBytes_mod 4 n).symm)
  unfold bytes words pair
  cases size <;> cases owner <;> cases permissions <;> cases times <;> simp [hsplit]

theorem words_cons {a : Attrs} (h : a.permissions.isSome = true) : ∃ w ws, a.words = w :: ws := by
  obtain ⟨mode, hmode⟩ := Option.isSome_iff_exists.mp h
  have hne : a.words ≠ [] := by simp [words, hmode]
  exact List.exists_cons_of_ne_nil hne

theorem words_cons_cons {a : Attrs} (h : a.owner.isSome = true) : ∃ v w ws, a.words = v :: w :: ws := by
  obtain ⟨owner, howner⟩ := Option.isSome_iff_exists.mp h
  cases hsize : a.size with
  | none => exact ⟨_, _, _, by simp only [words, hsize, howner]; rfl⟩
  | some size => exact ⟨_, _, _, by simp only [words, hsize, howner]; rfl⟩

end Attrs

def setstatPacket (id : UInt32) (path : SftpString) (attrs : Attrs) : Bytes :=
  header 9 id ++ (putString path ++ attrs.bytes)

/-! ## What is recorded -/

/-- What `extract_attrs` makes of the words behind the flags. -/
def attrsText (a : Attrs) : String :=
  if a.permissions.isSome then "chmod " ++ permsText (a.words.headD 0)
  else if a.owner.isSome then
    "chown " ++ toString (a.words.headD 0) ++ ":" ++ toString (a.words.getD 1 0)
  else ""

theorem Session.exec_extractAttrs {s : Session} {a : Attrs} (h : s.packet.data = a.bytes) :
    ∃ packet, exec extractAttrs s = (.ok (encode (attrsText a)), { s with packet := packet }) := by
  obtain ⟨hperms, howner⟩ := a.formatBin_flags
  have hlt : ∀ w ∈ a.words, w < 256 ^ 4 := fun w => Attrs.words_lt
  unfold extractAttrs attrsText
  rw [exec_bind_ok (exec_extractInt (h.trans a.bytes_eq) (a.flags_lt.trans (by norm_num)))]
  simp only [hperms, howner]
  by_cases hp : a.permissions.isSome = true
  · obtain ⟨w, ws, hws⟩ := Attrs.words_cons hp
    rw [hws] at hlt
    rw [if_pos hp, if_pos hp, hws, List.flatMap_cons,
      exec_bind_ok (exec_extractInt rfl (hlt w List.mem_cons_self)), permsText]
    simp only [← String.append_assoc]
    exact ⟨_, rfl⟩
  rw [if_neg hp, if_neg hp]
  by_cases ho : a.owner.isSome = true
  · obtain ⟨v, w, ws, hws⟩ := Attrs.words_cons_cons ho
    rw [hws] at hlt
    rw [if_pos ho, if_pos ho, hws, List.flatMap_cons, List.flatMap_cons,
      exec_bind_ok (exec_extractInt rfl (hlt v List.mem_cons_self)),
      exec_bind_ok (exec_extractInt rfl (hlt w (List.mem_cons_of_mem v List.mem_cons_self)))]
    exact ⟨_, rfl⟩
  · rw [if_neg ho, if_neg ho]
    have hnil : encode "" = [] := by decide
    rw [hnil]
    exact ⟨_, rfl⟩

/-- The command of a SETSTAT. -/
theorem Session.ends_setstat (sha256 : Bytes → String) (parent : Parent) (id : UInt32)
    (path : SftpString) (a : Attrs) (s : Session) :
    Ends Session.command (handlePacket sha256 parent ⟨0, setstatPacket id path a⟩) s (.ok ())
      (encode (attrsText a) ++ encode " " ++ path) := by
  obtain ⟨n, hn⟩ := exec_handlePacket sha256 parent 9 id (putString path ++ a.bytes) s
  unfold Ends setstatPacket
  rw [hn]
  change Ends Session.command (dispatch sha256 parent.tag 9) _ _ _
  obtain ⟨m, hm⟩ := exec_extractString (s := s.arrived id ⟨n, putString path ++ a.bytes⟩) rfl path.2
  unfold dispatch
  refine ends_bind_ok hm (ends_modify_bind ?_)
  obtain ⟨packet, hattrs⟩ := exec_extractAttrs
    (s := { s.arrived id ⟨n, putString path ++ a.bytes⟩ with packet := ⟨m, a.bytes⟩, path := path })
    (a := a) rfl
  exact ends_bind_ok hattrs (ends_modify rfl)

/-- The command that a SETSTAT stands for: `chmod` with the low nine bits of its mode, or else `chown`
with its owner. -/
def Attrs.Records (a : Attrs) (path command : Bytes) : Prop :=
  match a.permissions, a.owner with
  | some mode, _ => command = encode ("chmod " ++ octal (mode.toNat % 512)) ++ encode " " ++ path
  | none, some (uid, gid) =>
    command = encode ("chown " ++ toString uid.toNat ++ ":" ++ toString gid.toNat) ++ encode " " ++ path
  | none, none => True

/-- What is read first is the field that is asked for, as far as the text tells. -/
def Attrs.ReadRight (a : Attrs) : Prop :=
  match a.permissions, a.owner with
  | some mode, _ => CutAs (a.words.headD 0) (mode.toNat % 512)
  | none, some (uid, gid) => a.words.take 2 = [uid.toNat, gid.toNat]
  | none, none => True

theorem append_right_injective (s : String) {t u : String} (h : s ++ t = s ++ u) : t = u := by
  have hlist := congrArg String.toList h
  rw [String.toList_append, String.toList_append] at hlist
  exact String.toList_injective (List.append_cancel_left hlist)

/-- Two numbers with a colon between them. -/
theorem ids_eq_iff {u v w x : Nat} :
    toString u ++ ":" ++ toString v = toString w ++ ":" ++ toString x ↔ u = w ∧ v = x := by
  have hdigits : ∀ n : Nat, ':' ∉ (toString n).toList := by
    intro n hmem
    rw [Nat.toString_eq_ofList_toDigits, String.toList_ofList] at hmem
    have hdigit := Nat.isDigit_of_mem_toDigits (by omega) (by omega) hmem
    revert hdigit
    decide
  constructor
  · intro h
    have hlist := congrArg String.toList h
    simp only [String.toList_append, List.append_assoc] at hlist
    change (toString u).toList ++ ':' :: (toString v).toList =
      (toString w).toList ++ ':' :: (toString x).toList at hlist
    obtain ⟨hu, -, hv⟩ := (List.append_cons_inj_of_notMem (hdigits u) (hdigits v)).mp hlist
    exact ⟨toString_injective (String.toList_injective hu), toString_injective (String.toList_injective hv)⟩
  · rintro ⟨rfl, rfl⟩
    rfl

/-- **The command recorded for a SETSTAT** is right exactly if the field is read first. -/
theorem setstat_command_iff (sha256 : Bytes → String) (parent : Parent) (id : UInt32)
    (path : SftpString) (a : Attrs) (s : Session) :
    (∃ u, exec (Session.handlePacket sha256 parent ⟨0, setstatPacket id path a⟩) s = (.ok (), u) ∧
        a.Records path u.command) ↔ a.ReadRight := by
  obtain ⟨u, hexec, hcommand⟩ := (Session.ends_setstat sha256 parent id path a s).exec
  have hrun : (∃ u, exec (Session.handlePacket sha256 parent ⟨0, setstatPacket id path a⟩) s =
        (.ok (), u) ∧ a.Records path u.command) ↔ a.Records path u.command := by
    constructor
    · rintro ⟨v, hv, hrec⟩
      obtain rfl : u = v := congrArg Prod.snd (hexec.symm.trans hv)
      exact hrec
    · exact fun hrec => ⟨u, hexec, hrec⟩
  have htext : ∀ t, u.command = encode t ++ encode " " ++ path.1 ↔ attrsText a = t := by
    intro t
    rw [hcommand, List.append_assoc, List.append_assoc]
    exact ⟨fun h => encode_injective (List.append_cancel_right h), fun h => by rw [h]⟩
  rw [hrun]
  unfold Attrs.Records Attrs.ReadRight
  cases hperms : a.permissions with
  | some mode =>
    simp only
    rw [htext, attrsText, hperms, ← permsText_eq_iff (Nat.mod_lt _ (by omega))]
    exact ⟨append_right_injective "chmod ", fun h => congrArg ("chmod " ++ ·) h⟩
  | none =>
    cases howner : a.owner with
    | none => exact iff_of_true trivial trivial
    | some owner =>
      obtain ⟨uid, gid⟩ := owner
      obtain ⟨v, w, ws, hws⟩ := Attrs.words_cons_cons (a := a) (by rw [howner]; rfl)
      simp only
      rw [htext, attrsText, hperms, howner, hws]
      change "chown " ++ toString v ++ ":" ++ toString w =
        "chown " ++ toString uid.toNat ++ ":" ++ toString gid.toNat ↔ [v, w] = [uid.toNat, gid.toNat]
      have hassoc : ∀ x y : Nat, "chown " ++ toString x ++ ":" ++ toString y =
          "chown " ++ (toString x ++ ":" ++ toString y) := fun x y => by simp only [String.append_assoc]
      rw [hassoc, hassoc, List.cons_eq_cons, List.singleton_inj, ← ids_eq_iff]
      exact ⟨append_right_injective "chown ", fun h => congrArg ("chown " ++ ·) h⟩

/-- With no field before it, a mode must have no more than nine bits. -/
theorem readRight_mode {a : Attrs} {mode : UInt32} (hsize : a.size = none) (howner : a.owner = none)
    (hmode : a.permissions = some mode) : a.ReadRight ↔ mode.toNat < 512 := by
  unfold Attrs.ReadRight Attrs.words
  rw [hsize, howner, hmode]
  exact cutAs_mod_iff mode.toNat

/-- `sftp` sends the mode of a regular file with the bits of its type. -/
theorem setstat_regular_file :
    ¬ ∃ u, exec (Session.handlePacket (fun _ => "") .client
        ⟨0, setstatPacket 1 ⟨[97], by decide⟩ ⟨none, none, some 0o100644, none⟩⟩) {} = (.ok (), u) ∧
      Attrs.Records ⟨none, none, some 0o100644, none⟩ [97] u.command := by
  rintro ⟨u, hexec, hrecords⟩
  have hcommand : (exec (Session.handlePacket (fun _ => "") .client
      ⟨0, setstatPacket 1 ⟨[97], by decide⟩ ⟨none, none, some 0o100644, none⟩⟩) {}).2.command =
      encode "chmod 40420 a" := by
    decide +kernel
  rw [hexec, show u.command = _ from hrecords] at hcommand
  revert hcommand
  decide +kernel

end Cowrie.SshProxy
