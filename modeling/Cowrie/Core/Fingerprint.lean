import Cowrie.Lib.Offset
import Mathlib.Data.List.Sort
import Mathlib.Data.String.Basic

/-!
# Fingerprints of TLS clients (`src/cowrie/core/fingerprint.py`)

`parse_tls_client_hello` reads a ClientHello out of the bytes that a client sends, `generate_ja4` makes the JA4
fingerprint of what it returns. Every exception of the parser is caught and returned as `None`, so `none` stands
for both.

* `firstProtocol`, `parseExtension` and `parseExtensions` are parts of `parse_tls_client_hello`: the ALPN branch,
  the body of the loop over the extensions, and the loop.
* `sha_encode` of the vendored library is the parameter `shaEncode`, on a list of texts or on a text.
* `ja4` is what the callers make of the two: the fingerprint of the fields that the parser returns.
-/

namespace Cowrie.Core.Fingerprint

open Lib

/-! ## The parser -/

/-- What `parse_tls_client_hello` returns. -/
structure TlsInfo where
  tlsVersion : Nat
  ciphers : List Nat
  extensions : List Nat := []
  hasSni : Bool := false
  alpn : Option String := none
  signatureAlgorithms : Option (List Nat) := none
  deriving DecidableEq

/-- `b.decode("ascii", errors="ignore")`. -/
def decodeAscii (b : Bytes) : String := String.ofList ((b.filter (· < 128)).map fun x => Char.ofNat x.toNat)

/-- The first protocol of `alpn_data`. -/
def firstProtocol (alpnData : Bytes) : Option String :=
  match alpnData with
  | protoLength :: protocols =>
    if 1 < alpnData.length ∧ 0 < protoLength ∧ 1 + protoLength.toNat ≤ alpnData.length then
      some (decodeAscii (protocols.take protoLength.toNat))
    else none
  | [] => none

/-- One extension, whose body begins at `offset`. -/
def parseExtension (data : Bytes) (offset extLength extType : Nat) (info : TlsInfo) : Option TlsInfo :=
  let info := { info with extensions := info.extensions ++ [extType] }
  if extType = 0x0000 then some { info with hasSni := true }
  else if extType = 0x0010 ∧ 2 < extLength then do
    let alpnLength ← uint16At data offset
    if 0 < alpnLength ∧ offset + 2 + alpnLength ≤ data.length then
      return { info with alpn := (firstProtocol (slice data (offset + 2) alpnLength)).or info.alpn }
    else return info
  else if extType = 0x000d ∧ 2 < extLength then do
    let sigAlgLength ← uint16At data offset
    if 0 < sigAlgLength ∧ offset + 2 + sigAlgLength ≤ data.length then
      let inside := (List.range ((sigAlgLength + 1) / 2)).filter fun i => offset + 2 + 2 * i + 2 ≤ data.length
      let sigAlgs ← inside.mapM fun i => uint16At data (offset + 2 + 2 * i)
      return { info with signatureAlgorithms := some sigAlgs }
    else return info
  else some info

/-- The loop over the extensions. -/
def parseExtensions (data : Bytes) (extEnd offset : Nat) (info : TlsInfo) : Option TlsInfo :=
  if _h : offset < extEnd ∧ offset + 4 ≤ data.length then do
    let extType ← uint16At data offset
    let extLength ← uint16At data (offset + 2)
    if data.length < offset + 4 + extLength then return info
    else
      let info ← parseExtension data (offset + 4) extLength extType info
      parseExtensions data extEnd (offset + 4 + extLength) info
  else some info
termination_by data.length - offset

/-- `parse_tls_client_hello`. -/
def parseTlsClientHello (data : Bytes) : Option TlsInfo := do
  guard (43 ≤ data.length)
  guard (data[0]? = some 0x16)
  guard (data[5]? = some 0x01)
  guard (9 + 35 ≤ data.length)
  let tlsVersion ← uint16At data 9
  let sessionIdLength ← data[43]?
  let offset := 44 + sessionIdLength.toNat
  guard (offset + 2 ≤ data.length)
  let cipherSuitesLength ← uint16At data offset
  let offset := offset + 2
  guard (offset + cipherSuitesLength ≤ data.length)
  let ciphers ← (List.range ((cipherSuitesLength + 1) / 2)).mapM fun i => uint16At data (offset + 2 * i)
  let offset := offset + cipherSuitesLength
  guard (offset + 1 ≤ data.length)
  let compressionLength ← data[offset]?
  let offset := offset + (1 + compressionLength.toNat)
  guard (offset + 2 ≤ data.length)
  let extensionsLength ← uint16At data offset
  let offset := offset + 2
  parseExtensions data (offset + extensionsLength) offset { tlsVersion, ciphers }

/-! ## The fingerprint -/

/-- `GREASE_VALUES`. -/
def greaseValues : List Nat :=
  [0x0a0a, 0x1a1a, 0x2a2a, 0x3a3a, 0x4a4a, 0x5a5a, 0x6a6a, 0x7a7a, 0x8a8a, 0x9a9a, 0xaaaa, 0xbaba, 0xcaca, 0xdada,
    0xeaea, 0xfafa]

/-- `TLS_VERSION_MAP`. -/
def tlsVersionMap : List (Nat × String) :=
  [(0x0002, "s2"), (0x0300, "s3"), (0x0301, "10"), (0x0302, "11"), (0x0303, "12"), (0x0304, "13")]

/-- `f"{n:04x}"`. -/
def hex4 (n : Nat) : String := String.ofList ((Nat.toDigits 16 n).leftpad 4 '0')

/-- `f"{n:02d}"`. -/
def dec2 (n : Nat) : String := String.ofList ((Nat.toDigits 10 n).leftpad 2 '0')

/-- `sorted(strings)`. -/
def sorted (strings : List String) : List String := strings.insertionSort (· ≤ ·)

/-- The values that are no GREASE. -/
def withoutGrease (values : List Nat) : List Nat := values.filter (· ∉ greaseValues)

/-- `alpn_value`. -/
def alpnValue (alpn : Option String) : String :=
  match alpn.map String.toList with
  | some (first :: second :: third :: rest) => String.ofList [first, ((second :: third :: rest).getLastD first)]
  | some (first :: rest) => String.ofList (first :: rest)
  | _ => "00"

/-- `generate_ja4`. -/
def generateJa4 (shaEncode : List String ⊕ String → String) (info : TlsInfo) (useQuic : Bool) : String :=
  let ptype := if useQuic then "q" else "t"
  let version := (tlsVersionMap.lookup info.tlsVersion).getD "00"
  let sni := if info.hasSni then "d" else "i"
  let filteredCiphers := withoutGrease info.ciphers
  let filteredExtensions := withoutGrease info.extensions
  let cipherCount := min filteredCiphers.length 99
  let extCount := min filteredExtensions.length 99
  let sortedCiphers := sorted (filteredCiphers.map hex4)
  let cipherHash := if sortedCiphers ≠ [] then shaEncode (.inl sortedCiphers) else "000000000000"
  let sortedExtensions := sorted (filteredExtensions.map hex4)
  let extString := match info.signatureAlgorithms with
    | some (sigAlg :: sigAlgs) =>
      ",".intercalate sortedExtensions ++ "_" ++ ",".intercalate ((sigAlg :: sigAlgs).map hex4)
    | _ => ",".intercalate sortedExtensions
  let extHash := if sortedExtensions ≠ [] then shaEncode (.inr extString) else "000000000000"
  ptype ++ version ++ sni ++ dec2 cipherCount ++ dec2 extCount ++ alpnValue info.alpn ++ "_" ++ cipherHash ++ "_" ++
    extHash

/-- The fingerprint of what the parser returns. -/
def ja4 (shaEncode : List String ⊕ String → String) (data : Bytes) : Option String :=
  (parseTlsClientHello data).map fun info => generateJa4 shaEncode info false

end Cowrie.Core.Fingerprint
