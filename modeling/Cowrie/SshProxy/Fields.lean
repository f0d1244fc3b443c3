import Cowrie.SshProxy.SftpPackets
import Cowrie.Struct

/-!
# Fields of a payload (`src/cowrie/ssh_proxy/util.py`, `src/cowrie/ssh_proxy/protocols/base_protocol.py:57-78`)

What `string_to_hex`, `bin_string_to_hex` and `int_to_hex` write, `extract_string` and `extract_int` read.
There is no writer for eight bytes: a `uint64` is two `int_to_hex`, the high half first. A boolean is one byte.

* A writer is `none` on a `struct.error`: a length or a number of more than four bytes.
* `Field` is what is written, `Extract` the call that reads it, `Value` what it returns. A text comes back as
  its bytes in UTF-8, which decode to it (`decode_encode`).

Results:
* `run_extract`: one field, whatever follows it.
* **`extractAll_serialise`**: any list of fields is written iff each of them fits, and read back to its end.
-/

namespace Cowrie.SshProxy

/-! ## Writers -/

/-- `bin_string_to_hex`. -/
def binStringToHex (message : Bytes) : Option Bytes := do
  let size ← packUInt 4 message.length
  return size ++ message

/-- `string_to_hex`. -/
def stringToHex (message : String) : Option Bytes := do
  let b := encode message
  let size ← packUInt 4 b.length
  return size ++ b

/-- `int_to_hex`. -/
def intToHex (value : Int) : Option Bytes := packUInt 4 value

/-! ## Fields -/

inductive Field
  | bytes (b : Bytes)
  | text (s : String)
  | uint32 (n : UInt32)
  | uint64 (n : UInt64)
  | bool (b : Bool)

/-- What `extract_*` returns. -/
inductive Value
  | bytes (b : Bytes)
  | int (n : Nat)
  | bool (b : Bool)
  deriving DecidableEq

/-- A call of a reader. -/
inductive Extract
  | string
  | int (length : Nat)
  | bool

namespace Field

def write : Field → Option Bytes
  | bytes b => binStringToHex b
  | text s => stringToHex s
  | uint32 n => intToHex n.toNat
  | uint64 n => do
    let high ← intToHex (n.toNat / 2 ^ 32 : Nat)
    let low ← intToHex (n.toNat % 2 ^ 32 : Nat)
    return high ++ low
  | bool b => some [if b then 1 else 0]

def extract : Field → Extract
  | bytes _ => .string
  | text _ => .string
  | uint32 _ => .int 4
  | uint64 _ => .int 8
  | bool _ => .bool

def value : Field → Value
  | bytes b => .bytes b
  | text s => .bytes (encode s)
  | uint32 n => .int n.toNat
  | uint64 n => .int n.toNat
  | bool b => .bool b

/-- Its length can be written. -/
def Fits : Field → Prop
  | bytes b => b.length < 2 ^ 32
  | text s => (encode s).length < 2 ^ 32
  | uint32 _ => True
  | uint64 _ => True
  | bool _ => True

/-- What is written of a field that fits. -/
def put : Field → Bytes
  | bytes b => putString b
  | text s => putString (encode s)
  | uint32 n => intToBytes 4 n.toNat
  | uint64 n => intToBytes 8 n.toNat
  | bool b => [if b then 1 else 0]

end Field

/-- The fields one after another. -/
def serialise (fields : List Field) : Option Bytes := do
  let parts ← fields.mapM Field.write
  return parts.flatten

def Extract.run : Extract → Packet → Value × Packet
  | string, p => let (value, p) := p.extractString; (.bytes value, p)
  | int length, p => let (value, p) := p.extractInt length; (.int value, p)
  | bool, p => let (value, p) := p.extractBool; (.bool value, p)

/-- The readers one after another. -/
def extractAll : List Extract → Packet → List Value × Packet
  | [], p => ([], p)
  | extract :: extracts, p =>
    let (value, p) := extract.run p
    let (values, p) := extractAll extracts p
    (value :: values, p)

/-! ## What is written -/

theorem binStringToHex_eq (b : Bytes) :
    binStringToHex b = if b.length < 2 ^ 32 then some (putString b) else none := by
  have hfits : (0 ≤ (b.length : Int) ∧ (b.length : Int) < 256 ^ 4) ↔ b.length < 2 ^ 32 := by omega
  unfold binStringToHex packUInt
  rw [if_congr hfits rfl rfl]
  split_ifs
  · rfl
  · rfl

theorem intToHex_eq {n : Nat} (h : n < 2 ^ 32) : intToHex n = some (intToBytes 4 n) := by
  unfold intToHex packUInt
  rw [if_pos (by omega), Int.toNat_natCast]

namespace Field

theorem write_of_fits {f : Field} (h : f.Fits) : f.write = some f.put := by
  cases f with
  | bytes b => exact (binStringToHex_eq b).trans (if_pos h)
  | text s => exact (binStringToHex_eq (encode s)).trans (if_pos h)
  | uint32 n => exact intToHex_eq n.toNat_lt
  | uint64 n =>
    have hn := n.toNat_lt
    have hpow : (2 : Nat) ^ 32 = 256 ^ 4 := by norm_num
    have hhalves : intToBytes 4 (n.toNat / 2 ^ 32) ++ intToBytes 4 (n.toNat % 2 ^ 32) = intToBytes 8 n.toNat := by
      rw [hpow, intToBytes_mod]
      exact (intToBytes_add 4 n.toNat 4).symm
    have hhigh : intToHex (n.toNat / 2 ^ 32 : Nat) = some (intToBytes 4 (n.toNat / 2 ^ 32)) :=
      intToHex_eq (by omega)
    have hlow : intToHex (n.toNat % 2 ^ 32 : Nat) = some (intToBytes 4 (n.toNat % 2 ^ 32)) :=
      intToHex_eq (by omega)
    simp only [write, put, hhigh, hlow, ← hhalves]
    rfl
  | bool b => rfl

theorem write_of_not_fits {f : Field} (h : ¬ f.Fits) : f.write = none := by
  cases f with
  | bytes b => exact (binStringToHex_eq b).trans (if_neg h)
  | text s => exact (binStringToHex_eq (encode s)).trans (if_neg h)
  | uint32 n => exact absurd trivial h
  | uint64 n => exact absurd trivial h
  | bool b => exact absurd trivial h

theorem write_eq_some_iff {f : Field} {b : Bytes} : f.write = some b ↔ f.Fits ∧ f.put = b := by
  by_cases h : f.Fits
  · rw [write_of_fits h, Option.some_inj]
    exact (and_iff_right h).symm
  · rw [write_of_not_fits h]
    simp [h]

end Field

theorem serialise_cons (f : Field) (fields : List Field) :
    serialise (f :: fields) = f.write.bind fun b => (serialise fields).map (b ++ ·) := by
  unfold serialise
  cases hf : f.write with
  | none => simp [List.mapM_cons, hf]
  | some b =>
    cases hparts : fields.mapM Field.write with
    | none => simp [List.mapM_cons, hf, hparts]
    | some parts => simp [List.mapM_cons, hf, hparts]

/-- **What is written**: nothing at all, unless each of the fields fits. -/
theorem serialise_eq_some_iff {fields : List Field} {data : Bytes} :
    serialise fields = some data ↔ (∀ f ∈ fields, f.Fits) ∧ fields.flatMap Field.put = data := by
  induction fields generalizing data with
  | nil => simp [serialise]
  | cons f fields ih =>
    rw [serialise_cons, Option.bind_eq_some_iff, List.forall_mem_cons, List.flatMap_cons]
    constructor
    · rintro ⟨b, hf, hdata⟩
      obtain ⟨rest, hrest, rfl⟩ := Option.map_eq_some_iff.mp hdata
      obtain ⟨hfits, rfl⟩ := Field.write_eq_some_iff.mp hf
      obtain ⟨hall, rfl⟩ := ih.mp hrest
      exact ⟨⟨hfits, hall⟩, rfl⟩
    · rintro ⟨⟨hfits, hall⟩, rfl⟩
      exact ⟨f.put, Field.write_of_fits hfits, Option.map_eq_some_iff.mpr ⟨_, ih.mpr ⟨hall, rfl⟩, rfl⟩⟩

/-! ## What is read back -/

/-- **One field**, read where it stands. -/
theorem run_extract {f : Field} (h : f.Fits) {p : Packet} {rest : Bytes} (hp : p.data = f.put ++ rest) :
    f.extract.run p = (f.value, ⟨p.packetSize - f.put.length, rest⟩) := by
  cases f with
  | bytes b =>
    change (Value.bytes p.extractString.1, p.extractString.2) = _
    rw [extractString_putString hp h]
    rfl
  | text s =>
    change (Value.bytes p.extractString.1, p.extractString.2) = _
    rw [extractString_putString hp h]
    rfl
  | uint32 n =>
    change (Value.int (p.extractInt 4).1, (p.extractInt 4).2) = _
    rw [extractInt_append hp (n.toNat_lt.trans_le (by norm_num)), Field.put, intToBytes_length]
    rfl
  | uint64 n =>
    change (Value.int (p.extractInt 8).1, (p.extractInt 8).2) = _
    rw [extractInt_append hp (n.toNat_lt.trans_le (by norm_num)), Field.put, intToBytes_length]
    rfl
  | bool b =>
    have hdata : p.data = intToBytes 1 b.toNat ++ rest := by
      cases b with
      | true => exact hp
      | false => exact hp
    change (Value.bool ((p.extractInt 1).1 != 0), (p.extractInt 1).2) = _
    rw [extractInt_append hdata (b.toNat_lt.trans_le (by norm_num))]
    cases b with
    | true => rfl
    | false => rfl

/-- By induction on the fields; the cursor stands before the rest of them. -/
theorem extractAll_put {fields : List Field} (h : ∀ f ∈ fields, f.Fits) {p : Packet} {rest : Bytes}
    (hp : p.data = fields.flatMap Field.put ++ rest) :
    extractAll (fields.map Field.extract) p =
      (fields.map Field.value, ⟨p.packetSize - (fields.flatMap Field.put).length, rest⟩) := by
  induction fields generalizing p with
  | nil =>
    obtain ⟨size, data⟩ := p
    obtain rfl : data = rest := hp
    simp [extractAll]
  | cons f fields ih =>
    obtain ⟨hf, hfields⟩ := List.forall_mem_cons.mp h
    rw [List.flatMap_cons, List.append_assoc] at hp
    have hsize : p.packetSize - f.put.length - (fields.flatMap Field.put).length =
        p.packetSize - ((f :: fields).flatMap Field.put).length := by
      rw [List.flatMap_cons, List.length_append]
      omega
    rw [List.map_cons, extractAll, run_extract hf hp]
    simp only [ih (p := ⟨p.packetSize - f.put.length, fields.flatMap Field.put ++ rest⟩) hfields rfl, hsize]
    rfl

/-- **The field codec**: the fields are written iff each of them fits, and are read back to the end of the data,
with `packetSize` counted down by all of it. -/
theorem extractAll_serialise (fields : List Field) :
    ((∃ data, serialise fields = some data) ↔ ∀ f ∈ fields, f.Fits) ∧
      ∀ data, serialise fields = some data → ∀ size : Int,
        extractAll (fields.map Field.extract) ⟨size, data⟩ =
          (fields.map Field.value, ⟨size - data.length, []⟩) := by
  constructor
  · constructor
    · rintro ⟨data, hdata⟩
      exact (serialise_eq_some_iff.mp hdata).1
    · intro hfits
      exact ⟨_, serialise_eq_some_iff.mpr ⟨hfits, rfl⟩⟩
  · intro data hdata size
    obtain ⟨hfits, rfl⟩ := serialise_eq_some_iff.mp hdata
    exact extractAll_put hfits (List.append_nil _).symm

end Cowrie.SshProxy
