import Cowrie.Core.Fingerprint

/-!
# ClientHello messages and how they are parsed (`parse_tls_client_hello`)

* `Hello` is a ClientHello with the version of the record that carries it, `Hello.encode` that record. The
  extensions whose bodies the parser reads have their structure, all others a body of bytes; without the block
  there are none.
* A `ClientHello` is a legal one: the vectors have the lengths that the protocol allows, no two extensions have one
  type, and all fits in a record.
* `Hello.info` is what the parser should return: the first protocol of the ALPN extension as ASCII.

Results:
* `parseExtension_encode`, `parseExtensions_encode`: an extension, and the block of them, is read as it is.
* **`parse_encode_iff`**: the parser inverts the encoding iff the message has an extensions block.
-/

namespace Cowrie.Core.Fingerprint

open Lib

/-! ## Messages -/

inductive Extension where
  | alpn (protocols : List Bytes)
  | signatureAlgorithms (algorithms : List UInt16)
  | other (type : UInt16) (body : Bytes)
  deriving DecidableEq

/-- A number of two bytes. -/
def uint16 (n : UInt16) : Bytes := intToBytes 2 n.toNat

/-- A vector behind its length in two bytes. -/
def vector16 (body : Bytes) : Bytes := intToBytes 2 body.length ++ body

/-- A vector behind its length in one byte. -/
def vector8 (body : Bytes) : Bytes := UInt8.ofNat body.length :: body

namespace Extension

def type : Extension → UInt16
  | alpn _ => 0x0010
  | signatureAlgorithms _ => 0x000d
  | other type _ => type

def body : Extension → Bytes
  | alpn protocols => vector16 (protocols.flatMap vector8)
  | signatureAlgorithms algorithms => vector16 (algorithms.flatMap uint16)
  | other _ body => body

def encode (e : Extension) : Bytes := uint16 e.type ++ vector16 e.body

/-- The lists are not empty, nor are the protocols, and another extension is of another type. -/
def Legal : Extension → Prop
  | alpn protocols => protocols ≠ [] ∧ ∀ protocol ∈ protocols, 0 < protocol.length ∧ protocol.length < 256
  | signatureAlgorithms algorithms => algorithms ≠ []
  | other type _ => type ≠ 0x0010 ∧ type ≠ 0x000d

instance (e : Extension) : Decidable e.Legal := by
  cases e <;> unfold Legal <;> infer_instance

/-- The first protocol of an ALPN extension. -/
def firstAlpn : Extension → Option String
  | alpn (protocol :: _) => some (decodeAscii protocol)
  | _ => none

/-- The list of a signature_algorithms extension. -/
def algorithms : Extension → Option (List Nat)
  | signatureAlgorithms algorithms => some (algorithms.map UInt16.toNat)
  | _ => none

end Extension

/-- A ClientHello in a record. -/
structure Hello where
  recordVersion : UInt16
  version : UInt16
  random : Bytes
  sessionId : Bytes
  ciphers : List UInt16
  compression : Bytes
  extensions : Option (List Extension)

namespace Hello

/-- The extensions block. -/
def block (h : Hello) : Bytes :=
  match h.extensions with
  | none => []
  | some extensions => vector16 (extensions.flatMap Extension.encode)

/-- The body of the handshake message. -/
def body (h : Hello) : Bytes :=
  uint16 h.version ++ (h.random ++ (vector8 h.sessionId ++ (vector16 (h.ciphers.flatMap uint16) ++
    (vector8 h.compression ++ h.block))))

/-- The handshake message. -/
def handshake (h : Hello) : Bytes := 0x01 :: (intToBytes 3 h.body.length ++ h.body)

/-- The record. -/
def encode (h : Hello) : Bytes := 0x16 :: (uint16 h.recordVersion ++ vector16 h.handshake)

/-- The fields that a fingerprint is made of. -/
def info (h : Hello) : TlsInfo :=
  let extensions := h.extensions.getD []
  { tlsVersion := h.version.toNat
    ciphers := h.ciphers.map UInt16.toNat
    extensions := extensions.map fun e => e.type.toNat
    hasSni := extensions.any fun e => e.type = 0x0000
    alpn := (extensions.filterMap Extension.firstAlpn).head?
    signatureAlgorithms := (extensions.filterMap Extension.algorithms).head? }

end Hello

/-- A legal ClientHello. -/
structure ClientHello extends Hello where
  random_length : random.length = 32
  sessionId_length : sessionId.length ≤ 32
  ciphers_ne_nil : ciphers ≠ []
  compression_length : 0 < compression.length ∧ compression.length < 256
  legal : ∀ e ∈ extensions.getD [], e.Legal
  distinct : ((extensions.getD []).map Extension.type).Nodup
  fits : toHello.handshake.length < 2 ^ 16

/-! ## One extension -/

theorem length_vector16 (body : Bytes) : (vector16 body).length = body.length + 2 := by
  unfold vector16
  rw [List.length_append, intToBytes_length, Nat.add_comm]

theorem length_uint16 (n : UInt16) : (uint16 n).length = 2 := intToBytes_length 2 n.toNat

theorem flatMap_uint16 (l : List UInt16) : l.flatMap uint16 = (l.map UInt16.toNat).flatMap (intToBytes 2) := by
  rw [List.flatMap_map]
  rfl

theorem length_flatMap_uint16 (l : List UInt16) : (l.flatMap uint16).length = 2 * l.length := by
  induction l with
  | nil => rfl
  | cons n l ih =>
    rw [List.flatMap_cons, List.length_append, length_uint16, ih, List.length_cons]
    omega

/-- The fields after one more extension. -/
def TlsInfo.absorb (info : TlsInfo) (e : Extension) : TlsInfo :=
  { info with extensions := info.extensions ++ [e.type.toNat]
              hasSni := info.hasSni || e.type = 0x0000
              alpn := e.firstAlpn.or info.alpn
              signatureAlgorithms := e.algorithms.or info.signatureAlgorithms }

/-- The length of a protocol is read back. -/
theorem firstProtocol_vector8 {protocol : Bytes} (hpos : 0 < protocol.length) (hlt : protocol.length < 256)
    (rest : Bytes) : firstProtocol (vector8 protocol ++ rest) = some (decodeAscii protocol) := by
  have hlen : (UInt8.ofNat protocol.length).toNat = protocol.length := UInt8.toNat_ofNat_of_lt' hlt
  have hzero : 0 < UInt8.ofNat protocol.length := by
    rw [UInt8.lt_iff_toNat_lt, hlen]
    exact hpos
  unfold vector8 firstProtocol
  rw [List.cons_append]
  simp only [List.length_cons, List.length_append]
  rw [if_pos ⟨by omega, hzero, by omega⟩, hlen, List.take_left]

/-- **A list of numbers** behind its length. -/
theorem mapM_uint16At {data rest : Bytes} {offset : Nat} {l : List UInt16}
    (h : At data offset (l.flatMap uint16 ++ rest)) :
    (List.range (((l.flatMap uint16).length + 1) / 2)).mapM (fun i => uint16At data (offset + 2 * i)) =
      some (l.map UInt16.toNat) := by
  have hcount : ((l.flatMap uint16).length + 1) / 2 = (l.map UInt16.toNat).length := by
    rw [length_flatMap_uint16, List.length_map]
    omega
  rw [hcount]
  refine At.uint16s (flatMap_uint16 l ▸ h) fun n hn => ?_
  obtain ⟨m, -, rfl⟩ := List.mem_map.mp hn
  exact m.toNat_lt

/-- **The parser reads an extension as it is.** -/
theorem parseExtension_encode {data rest : Bytes} {offset : Nat} {e : Extension} (hlegal : e.Legal)
    (hlt : e.body.length < 2 ^ 16) (h : At data offset (e.body ++ rest)) (info : TlsInfo) :
    parseExtension data offset e.body.length e.type.toNat info = some (info.absorb e) := by
  have hlen := h.length
  unfold parseExtension TlsInfo.absorb
  cases e with
  | other type body =>
    have htype : ∀ n : UInt16, type.toNat = n.toNat ↔ type = n := fun n => UInt16.toNat_inj
    have h10 : ¬ type.toNat = 0x0010 := fun heq => hlegal.1 ((htype 0x0010).mp heq)
    have h0d : ¬ type.toNat = 0x000d := fun heq => hlegal.2 ((htype 0x000d).mp heq)
    by_cases h0 : type = 0x0000
    · simp [Extension.type, Extension.firstAlpn, Extension.algorithms, h0]
    · have h00 : ¬ type.toNat = 0x0000 := fun heq => h0 ((htype 0x0000).mp heq)
      simp [Extension.type, Extension.firstAlpn, Extension.algorithms, h0, h00, h10, h0d]
  | alpn protocols =>
    obtain ⟨hne, hprotocols⟩ := hlegal
    unfold Extension.body at h hlt hlen ⊢
    rw [length_vector16] at hlt ⊢
    rw [List.length_append, length_vector16] at hlen
    unfold vector16 at h
    rw [List.append_assoc] at h
    have hread : uint16At data offset = some (protocols.flatMap vector8).length := h.uint16 (by omega)
    have hslice := (h.advance_of_length (intToBytes_length 2 _)).slice
    obtain ⟨protocol, rest', rfl⟩ := List.exists_cons_of_ne_nil hne
    obtain ⟨hpos, hfit⟩ := hprotocols protocol List.mem_cons_self
    have hfirst : firstProtocol ((protocol :: rest').flatMap vector8) = some (decodeAscii protocol) :=
      firstProtocol_vector8 hpos hfit _
    have hlength : 1 < ((protocol :: rest').flatMap vector8).length := by
      rw [List.flatMap_cons, List.length_append]
      unfold vector8
      rw [List.length_cons]
      omega
    have htype : (Extension.alpn (protocol :: rest')).type.toNat = 0x0010 := rfl
    rw [htype, if_neg (by decide), if_pos ⟨rfl, by omega⟩, hread]
    simp only [Option.bind_eq_bind, Option.bind_some]
    rw [if_pos ⟨by omega, by omega⟩, hslice, hfirst]
    simp [Extension.type, Extension.firstAlpn, Extension.algorithms]
  | signatureAlgorithms algorithms =>
    unfold Extension.body at h hlt hlen ⊢
    rw [length_vector16] at hlt ⊢
    rw [List.length_append, length_vector16] at hlen
    unfold vector16 at h
    rw [List.append_assoc] at h
    have hread : uint16At data offset = some (algorithms.flatMap uint16).length := h.uint16 (by omega)
    have hlength := length_flatMap_uint16 algorithms
    have hpos : 0 < algorithms.length := List.length_pos_iff.mpr hlegal
    have hlist := mapM_uint16At (h.advance_of_length (intToBytes_length 2 _))
    have hinside : (List.range (((algorithms.flatMap uint16).length + 1) / 2)).filter
        (fun i => offset + 2 + 2 * i + 2 ≤ data.length) =
        List.range (((algorithms.flatMap uint16).length + 1) / 2) := by
      refine List.filter_eq_self.mpr fun i hi => decide_eq_true ?_
      have := List.mem_range.mp hi
      omega
    have htype : (Extension.signatureAlgorithms algorithms).type.toNat = 0x000d := rfl
    rw [htype, if_neg (by decide), if_neg (fun h10 => absurd h10.1 (by decide)), if_pos ⟨rfl, by omega⟩, hread]
    simp only [Option.bind_eq_bind, Option.bind_some]
    rw [if_pos ⟨by omega, by omega⟩, hinside, hlist]
    simp [Extension.type, Extension.firstAlpn, Extension.algorithms]

/-! ## The block -/

theorem length_encode (e : Extension) : e.encode.length = e.body.length + 4 := by
  unfold Extension.encode
  rw [List.length_append, length_uint16, length_vector16]
  omega

/-- **The parser reads a block of extensions as it is.** -/
theorem parseExtensions_encode {data : Bytes} {offset : Nat} {extensions : List Extension}
    (hlegal : ∀ e ∈ extensions, e.Legal) (hlt : ∀ e ∈ extensions, e.body.length < 2 ^ 16)
    (h : At data offset (extensions.flatMap Extension.encode)) (info : TlsInfo) :
    parseExtensions data data.length offset info = some (extensions.foldl TlsInfo.absorb info) := by
  induction extensions generalizing offset info with
  | nil =>
    have hend := At.nil_iff.mp h
    unfold parseExtensions
    rw [dif_neg (by omega)]
    rfl
  | cons e extensions ih =>
    have hlen := h.length
    rw [List.flatMap_cons, List.length_append, length_encode] at hlen
    rw [List.flatMap_cons] at h
    unfold Extension.encode vector16 at h
    rw [List.append_assoc, List.append_assoc] at h
    have htype : uint16At data offset = some e.type.toNat := h.uint16 e.type.toNat_lt
    have hlength := h.advance_of_length (length_uint16 e.type)
    have hread : uint16At data (offset + 2) = some e.body.length := hlength.uint16 (hlt e List.mem_cons_self)
    have hbody := hlength.advance_of_length (intToBytes_length 2 _)
    have hone := parseExtension_encode (hlegal e List.mem_cons_self) (hlt e List.mem_cons_self) hbody info
    have hrest := ih (fun e' he => hlegal e' (List.mem_cons_of_mem _ he))
      (fun e' he => hlt e' (List.mem_cons_of_mem _ he)) hbody.advance (info.absorb e)
    unfold parseExtensions
    rw [dif_pos ⟨by omega, by omega⟩, htype]
    simp only [Option.bind_eq_bind, Option.bind_some, hread]
    rw [if_neg (by omega), hone]
    exact hrest

/-- The fields after a list of extensions: a later list stands for an earlier one. -/
theorem foldl_absorb (extensions : List Extension) (info : TlsInfo) :
    extensions.foldl TlsInfo.absorb info =
      { info with extensions := info.extensions ++ extensions.map fun e => e.type.toNat
                  hasSni := info.hasSni || extensions.any fun e => e.type = 0x0000
                  alpn := (extensions.filterMap Extension.firstAlpn).getLast?.or info.alpn
                  signatureAlgorithms :=
                    (extensions.filterMap Extension.algorithms).getLast?.or info.signatureAlgorithms } := by
  have hlast : ∀ {α : Type} (f : Extension → Option α) (e : Extension) (l : List Extension) (a : Option α),
      (l.filterMap f).getLast?.or ((f e).or a) = ((e :: l).filterMap f).getLast?.or a := by
    intro α f e l a
    rw [List.filterMap_cons]
    cases f e with
    | none => rfl
    | some x =>
      simp only
      rw [List.getLast?_cons, Option.some_or]
      cases (l.filterMap f).getLast? <;> rfl
  induction extensions generalizing info with
  | nil => simp
  | cons e extensions ih =>
    rw [List.foldl_cons, ih]
    unfold TlsInfo.absorb
    simp only [hlast, List.map_cons, List.any_cons, List.append_assoc, List.singleton_append, Bool.or_assoc]

/-- Of distinct types, one extension at most is of a given type. -/
theorem length_filterMap_le_one {α : Type} {f : Extension → Option α} {type : UInt16}
    (hf : ∀ e, (f e).isSome → e.type = type) {extensions : List Extension}
    (hdistinct : (extensions.map Extension.type).Nodup) : (extensions.filterMap f).length ≤ 1 := by
  induction extensions with
  | nil => exact Nat.zero_le 1
  | cons e extensions ih =>
    obtain ⟨hout, hrest⟩ := List.nodup_cons.mp hdistinct
    cases he : f e with
    | none =>
      rw [List.filterMap_cons_none he]
      exact ih hrest
    | some x =>
      have hnone : extensions.filterMap f = [] := by
        refine List.filterMap_eq_nil_iff.mpr fun e' he' => ?_
        by_contra hsome
        have hsame := (hf e' (Option.ne_none_iff_isSome.mp hsome)).trans (hf e (he ▸ rfl)).symm
        exact hout (hsame ▸ List.mem_map_of_mem he')
      rw [List.filterMap_cons_some he, hnone]
      rfl

theorem type_of_firstAlpn {e : Extension} (h : e.firstAlpn.isSome) : e.type = 0x0010 := by
  cases e with
  | alpn protocols => rfl
  | signatureAlgorithms algorithms => cases h
  | other type body => cases h

theorem type_of_algorithms {e : Extension} (h : e.algorithms.isSome) : e.type = 0x000d := by
  cases e with
  | alpn protocols => cases h
  | signatureAlgorithms algorithms => rfl
  | other type body => cases h

theorem getLast?_of_length_le_one {α : Type} {l : List α} (h : l.length ≤ 1) : l.getLast? = l.head? := by
  match l, h with
  | [], _ => rfl
  | [x], _ => rfl

/-! ## The whole message -/

namespace ClientHello

theorem length_body (h : ClientHello) :
    h.body.length = 37 + h.sessionId.length + 2 * h.ciphers.length + (1 + h.compression.length) + h.block.length := by
  unfold Hello.body vector8
  simp only [List.length_append, List.length_cons, length_uint16, length_vector16, length_flatMap_uint16,
    h.random_length]
  omega

theorem length_body_lt (h : ClientHello) : h.body.length < 2 ^ 16 := by
  have hfits := h.fits
  unfold Hello.handshake at hfits
  rw [List.length_cons, List.length_append] at hfits
  omega

/-- The body of the handshake message begins at 9. -/
theorem at_body (h : ClientHello) :
    At h.encode 9 h.body ∧ h.encode[0]? = some 0x16 ∧ h.encode[5]? = some 0x01 := by
  have h0 : At h.encode 0 ([0x16] ++ (uint16 h.recordVersion ++ (intToBytes 2 h.handshake.length ++
    ([0x01] ++ (intToBytes 3 h.body.length ++ h.body))))) := At.start _
  have h1 := h0.advance_of_length (n := 1) rfl
  have h3 := h1.advance_of_length (length_uint16 _)
  have h5 := h3.advance_of_length (intToBytes_length 2 _)
  have h6 := h5.advance_of_length (n := 1) rfl
  exact ⟨h6.advance_of_length (intToBytes_length 3 _), h0.byte, h5.byte⟩

/-- **The parser, up to the extensions.** -/
theorem parse_eq (h : ClientHello) :
    ∃ offset, At h.encode offset h.block ∧ parseTlsClientHello h.encode = (do
      guard (offset + 2 ≤ h.encode.length)
      let extensionsLength ← uint16At h.encode offset
      parseExtensions h.encode (offset + 2 + extensionsLength) (offset + 2)
        { tlsVersion := h.version.toNat, ciphers := h.ciphers.map UInt16.toNat }) := by
  obtain ⟨h9, htype, hhandshake⟩ := h.at_body
  have hlength := h9.length
  have hbody := h.length_body
  have hlt := h.length_body_lt
  have hsid := h.sessionId_length
  unfold Hello.body at h9
  have hversion : uint16At h.encode 9 = some h.version.toNat := h9.uint16 h.version.toNat_lt
  have h11 : At h.encode 11 _ := h9.advance_of_length (length_uint16 _)
  have h43 : At h.encode 43 _ := h11.advance_of_length h.random_length
  unfold vector8 at h43
  rw [List.cons_append] at h43
  have hsidLength := h43.byte
  have hsidNat : (UInt8.ofNat h.sessionId.length).toNat = h.sessionId.length :=
    UInt8.toNat_ofNat_of_lt' (by change _ < 256; omega)
  have h44 : At h.encode 44 _ := At.advance_of_length (a := [_]) (n := 1) h43 rfl
  have hsuites := h44.advance
  unfold vector16 at hsuites
  rw [List.append_assoc] at hsuites
  have hsuitesLength := length_flatMap_uint16 h.ciphers
  have hread := hsuites.uint16 (by omega)
  have hciphers := hsuites.advance_of_length (intToBytes_length 2 _)
  have hcompression := hciphers.advance
  rw [List.cons_append] at hcompression
  have hmethods := hcompression.byte
  have hmethodsNat : (UInt8.ofNat h.compression.length).toNat = h.compression.length :=
    UInt8.toNat_ofNat_of_lt' h.compression_length.2
  have hblock := At.advance_of_length (a := _ :: h.compression) (n := 1 + h.compression.length) hcompression
    (Nat.add_comm _ _)
  refine ⟨_, hblock, ?_⟩
  unfold parseTlsClientHello
  simp only [htype, hhandshake, hversion, hsidLength, hsidNat, hread, mapM_uint16At hciphers, hmethods, hmethodsNat,
    Option.bind_eq_bind, Option.bind_some]
  have hguard : ∀ {p : Prop} [Decidable p], p → (guard p : Option Unit) = some () := fun hp => if_pos hp
  rw [hguard (by omega), hguard trivial, hguard (by omega), hguard (by omega), hguard (by omega), hguard (by omega)]
  rfl

/-- Without a block the parser stops. -/
theorem parse_of_none (h : ClientHello) (hnone : h.extensions = none) : parseTlsClientHello h.encode = none := by
  obtain ⟨offset, hblock, heq⟩ := h.parse_eq
  have hnil : h.block = [] := by
    unfold Hello.block
    rw [hnone]
  have hend := At.nil_iff.mp (hnil ▸ hblock)
  have hguard : (guard (offset + 2 ≤ h.encode.length) : Option Unit) = none := if_neg (by omega)
  rw [heq, hguard]
  rfl

/-- With one it returns all the fields. -/
theorem parse_of_some (h : ClientHello) {extensions : List Extension} (hsome : h.extensions = some extensions) :
    parseTlsClientHello h.encode = some h.info := by
  obtain ⟨offset, hblock, heq⟩ := h.parse_eq
  have hlegal := h.legal
  have hdistinct := h.distinct
  rw [hsome, Option.getD_some] at hlegal hdistinct
  have hfits := h.length_body
  have hlt := h.length_body_lt
  unfold Hello.block at hblock hfits
  rw [hsome] at hblock hfits
  simp only [length_vector16] at hfits
  have hbodies : ∀ e ∈ extensions, e.body.length < 2 ^ 16 := by
    intro e he
    have hle := List.Sublist.length_le (List.sublist_flatten_of_mem (List.mem_map_of_mem (f := Extension.encode) he))
    rw [← List.flatMap_def, length_encode] at hle
    omega
  have hlength := hblock.length
  rw [length_vector16] at hlength
  unfold vector16 at hblock
  have hread := hblock.uint16 (by omega)
  have hparse := parseExtensions_encode hlegal hbodies (hblock.advance_of_length (intToBytes_length 2 _))
    { tlsVersion := h.version.toNat, ciphers := h.ciphers.map UInt16.toNat }
  have hguard : (guard (offset + 2 ≤ h.encode.length) : Option Unit) = some () := if_pos (by omega)
  have hend : offset + 2 + (extensions.flatMap Extension.encode).length = h.encode.length := by omega
  rw [heq, hguard]
  simp only [Option.bind_eq_bind, Option.bind_some, hread, hend]
  rw [hparse, foldl_absorb,
    getLast?_of_length_le_one (length_filterMap_le_one (fun _ => type_of_firstAlpn) hdistinct),
    getLast?_of_length_le_one (length_filterMap_le_one (fun _ => type_of_algorithms) hdistinct)]
  unfold Hello.info
  rw [hsome]
  simp

/-- **The parser inverts the encoding** iff the message has an extensions block. -/
theorem parse_encode_iff (h : ClientHello) :
    parseTlsClientHello h.encode = some h.info ↔ h.extensions.isSome := by
  cases hextensions : h.extensions with
  | none => simp [h.parse_of_none hextensions]
  | some extensions => simp [h.parse_of_some hextensions]

end ClientHello

/-- A legal ClientHello of one cipher suite, without extensions, is not read. -/
theorem rejects_without_extensions :
    ∃ h : ClientHello, h.ciphers = [0x002f] ∧ h.extensions = none ∧ parseTlsClientHello h.encode = none :=
  ⟨{ recordVersion := 0x0301, version := 0x0303, random := List.replicate 32 0, sessionId := [], ciphers := [0x002f]
     compression := [0], extensions := none, random_length := rfl, sessionId_length := by decide
     ciphers_ne_nil := by decide, compression_length := by decide, legal := by decide, distinct := by decide
     fits := by decide }, rfl, rfl, by decide +kernel⟩

end Cowrie.Core.Fingerprint
