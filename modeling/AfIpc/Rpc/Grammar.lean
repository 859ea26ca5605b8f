/-
  AfIpc.Rpc.Grammar

  The message grammar of the RPC layer, stated without the code: a message is a
  16-bit length that counts the whole message, followed by a concatenation of
  TLVs; a TLV is a type and exactly as many payload bytes as the type implies.

  `tlvs` is the grammar as a self-delimiting format (`Lib.Splitter`).  The last
  section ties the vocabulary to the tests the code makes on a type field, which
  is all the encoder and decoder proofs need to know about bits.
-/

import AfIpc.Lib.Splitter
import AfIpc.Rpc.Builders
import AfIpc.Rpc.Decoders

namespace AfIpc.Rpc

open AfIpc.Lib

/-! ## Types -/

/-- The six integer kinds. -/
inductive IntKind where
  | uint8 | uint16 | uint32 | int8 | int16 | int32
  deriving DecidableEq, Repr

namespace IntKind

def type : IntKind → BitVec 16
  | uint8 => typeUint8
  | uint16 => typeUint16
  | uint32 => typeUint32
  | int8 => typeInt8
  | int16 => typeInt16
  | int32 => typeInt32

/-- Payload bytes. -/
def width : IntKind → Nat
  | uint8 | int8 => 1
  | uint16 | int16 => 2
  | uint32 | int32 => 4

def isSigned : IntKind → Bool
  | uint8 | uint16 | uint32 => false
  | int8 | int16 | int32 => true

/-- The integer kind a type field names, if it names one. -/
def ofType (t : BitVec 16) : Option IntKind :=
  if t = typeUint8 then some uint8
  else if t = typeUint16 then some uint16
  else if t = typeUint32 then some uint32
  else if t = typeInt8 then some int8
  else if t = typeInt16 then some int16
  else if t = typeInt32 then some int32
  else none

theorem ofType_type (k : IntKind) : ofType k.type = some k := by
  cases k <;> decide

theorem type_of_ofType {t : BitVec 16} {k : IntKind} (h : ofType t = some k) : t = k.type := by
  unfold ofType at h
  split_ifs at h <;> simp only [Option.some.injEq] at h <;> subst h <;> assumption

/-- The number an integer of kind `k` is, from its bits. -/
def value (k : IntKind) (bits : BitVec (8 * k.width)) : Int :=
  if k.isSigned then bits.toInt else bits.toNat

end IntKind

/-- The payload size a well-formed type implies: the width of an integer kind
    with no other bit set, or the low 14 bits of a blob or string. -/
def payloadSize (t : BitVec 16) : Option Nat :=
  match IntKind.ofType t with
  | some k => some k.width
  | none => if typeIsBlob t then some (t &&& 0x3fff).toNat else none

/-! ## TLVs -/

/-- A well-formed TLV. -/
structure Tlv where
  type : BitVec 16
  payload : List Byte
  wf : payloadSize type = some payload.length

namespace Tlv

@[ext] theorem ext {a b : Tlv} (ht : a.type = b.type) (hp : a.payload = b.payload) : a = b := by
  cases a
  cases b
  simp_all

def encode (t : Tlv) : List Byte := toBe 2 t.type.toNat ++ t.payload

def size (t : Tlv) : Nat := 2 + t.payload.length

@[simp] theorem encode_length (t : Tlv) : t.encode.length = t.size := by
  simp [encode, size]

theorem take_encode (t : Tlv) (ys : List Byte) :
    (t.encode ++ ys).take 2 = toBe 2 t.type.toNat := by
  rw [encode, List.append_assoc, List.take_append_of_le_length (by simp)]
  simp

/-- The TLV at the front of a byte list. -/
def head (xs : List Byte) : Option Tlv :=
  let type := BitVec.ofNat 16 (ofBe (xs.take 2))
  match h : payloadSize type with
  | none => none
  | some n =>
    if hlen : 2 + n ≤ xs.length then
      some ⟨type, (xs.drop 2).take n, by
        rw [h, List.length_take, List.length_drop]
        congr 1
        omega⟩
    else none

theorem head_eq_some_iff {xs : List Byte} {t : Tlv} :
    head xs = some t ↔ ∃ ys, xs = t.encode ++ ys := by
  refine ⟨?_, ?_⟩
  · intro h
    simp only [head] at h
    split at h
    · cases h
    · rename_i n hn
      split_ifs at h with hlen
      simp only [Option.some.injEq] at h
      subst h
      have h2 : (xs.take 2).length = 2 := by rw [List.length_take]; omega
      have hlt := ofBe_lt (xs.take 2)
      rw [h2] at hlt
      refine ⟨(xs.drop 2).drop n, ?_⟩
      have hmod : ofBe (xs.take 2) % 2 ^ 16 = ofBe (xs.take 2) := Nat.mod_eq_of_lt hlt
      have htype : toBe 2 (ofBe (xs.take 2)) = xs.take 2 := by
        have := toBe_ofBe (xs.take 2)
        rwa [h2] at this
      simp only [encode, BitVec.toNat_ofNat, hmod, htype]
      rw [List.append_assoc, List.take_append_drop, List.take_append_drop]
  · rintro ⟨ys, rfl⟩
    have hdrop : ((t.encode ++ ys).drop 2).take t.payload.length = t.payload := by
      have h2 : (t.encode ++ ys).drop 2 = t.payload ++ ys := by
        rw [encode, List.append_assoc, List.drop_append_of_le_length (by simp)]
        simp
      rw [h2, List.take_left]
    have htype : BitVec.ofNat 16 (ofBe ((t.encode ++ ys).take 2)) = t.type := by
      rw [take_encode, ofNat_ofBe_toBe]
    simp only [head]
    split
    · rename_i hn
      rw [htype, t.wf] at hn
      cases hn
    · rename_i n hn
      rw [htype, t.wf, Option.some.injEq] at hn
      subst hn
      rw [dif_pos (by simp [size])]
      exact congrArg some (Tlv.ext htype hdrop)

/-- Bytes that start with a well-formed type are no TLV only if they are short
    of its payload. -/
theorem length_lt_of_head_eq_none {xs : List Byte} {n : Nat} (h : head xs = none)
    (hn : payloadSize (BitVec.ofNat 16 (ofBe (xs.take 2))) = some n) : xs.length < 2 + n := by
  by_contra hlen
  simp only [head] at h
  split at h
  · rename_i hno
    rw [hn] at hno
    cases hno
  · rename_i m hm
    rw [hn, Option.some.injEq] at hm
    subst hm
    rw [dif_pos (by omega)] at h
    cases h

end Tlv

/-- The TLVs of a byte list. -/
def tlvs : Splitter Byte Tlv where
  head := Tlv.head
  size := Tlv.size
  size_pos := by
    intro xs t _
    simp only [Tlv.size]
    omega
  size_le := by
    intro xs t h
    obtain ⟨ys, rfl⟩ := Tlv.head_eq_some_iff.mp h
    simp

theorem tlvs_encodes : tlvs.Encodes Tlv.encode (fun _ => True) where
  head_enc := by
    intro t ys _
    exact Tlv.head_eq_some_iff.mpr ⟨ys, rfl⟩
  length_enc := by
    intro t _
    exact t.encode_length

theorem tlvs_canonical : tlvs.Canonical Tlv.encode := by
  intro xs t h
  obtain ⟨ys, rfl⟩ := Tlv.head_eq_some_iff.mp h
  have hdrop : (t.encode ++ ys).drop (tlvs.size t) = ys := by
    rw [show tlvs.size t = t.encode.length from t.encode_length.symm, List.drop_left]
  rw [hdrop]

/-- The size of the message of `ts`. -/
def messageSize (ts : List Tlv) : Nat := lengthSize + (ts.map Tlv.size).sum

/-- The message of `ts`, when its size fits the prefix. -/
def encodeMessage (ts : List Tlv) : List Byte :=
  toBe 2 (messageSize ts) ++ ts.flatMap Tlv.encode

theorem flatMap_encode_length (ts : List Tlv) :
    (ts.flatMap Tlv.encode).length = (ts.map Tlv.size).sum :=
  tlvs_encodes.length_flatMap (fun _ _ => trivial)

@[simp] theorem encodeMessage_length (ts : List Tlv) :
    (encodeMessage ts).length = messageSize ts := by
  rw [encodeMessage, List.length_append, toBe_length, flatMap_encode_length, messageSize,
    lengthSize]

/-- The length prefix of a buffer. -/
def lengthPrefix (buf : List Byte) : Nat := ofBe (buf.take 2)

/-- `buf` is a message of `n` TLVs: the prefix counts all of it, and the rest is a
    concatenation of `n` of them. -/
def IsMessageOf (buf : List Byte) (n : Nat) : Prop :=
  lengthPrefix buf = buf.length ∧
    ∃ ts : List Tlv, ts.length = n ∧ buf.drop 2 = ts.flatMap Tlv.encode

theorem isMessageOf_iff {buf : List Byte} {n : Nat} :
    IsMessageOf buf n ↔ lengthPrefix buf = buf.length ∧
      (tlvs.items (buf.drop 2)).length = n ∧ tlvs.leftover (buf.drop 2) = [] := by
  rw [IsMessageOf, tlvs_canonical.exists_flatMap_iff tlvs_encodes (fun _ => trivial)]

/-- The prefix as the code loads it. -/
theorem getlen_lengthPrefix {buf : List Byte} (h : 2 ≤ buf.length) :
    ∃ len, getlen buf 0 = .ok len ∧ len.toNat = lengthPrefix buf := by
  have hlt := ofBe_lt (buf.take 2)
  have h2 : (buf.take 2).length = 2 := by rw [List.length_take]; omega
  rw [h2] at hlt
  exact ⟨_, getlen_eq_ok h, by rw [BitVec.toNat_ofNat]; exact Nat.mod_eq_of_lt hlt⟩

/-! ## The code's view of a type field -/

theorem typeIsInteger_eq_not_isBlob (t : BitVec 16) : typeIsInteger t = !typeIsBlob t := by
  simp [typeIsInteger, typeIsBlob, bne]

theorem isInteger_iff {t : BitVec 16} : typeIsInteger t = true ↔ ¬ typeIsBlob t = true := by
  rw [typeIsInteger_eq_not_isBlob, Bool.not_eq_true', Bool.not_eq_true]

theorem isBlob_of_not_isInteger {t : BitVec 16} (h : ¬ typeIsInteger t = true) :
    typeIsBlob t = true :=
  not_not.mp (mt isInteger_iff.mpr h)

theorem isInteger_type (k : IntKind) : typeIsInteger k.type = true := by
  cases k <;> decide

theorem not_isBlob_type (k : IntKind) : ¬ typeIsBlob k.type = true :=
  isInteger_iff.mp (isInteger_type k)

theorem sizeOfType_type (k : IntKind) : afRpcGetSizeOfType k.type = k.width := by
  cases k <;> decide

theorem mask_type (k : IntKind) : k.type &&& typeIntegerTypeMask = k.type := by
  cases k <;> decide

theorem sizeOfType_blob {t : BitVec 16} (h : typeIsBlob t = true) :
    afRpcGetSizeOfType t = (t &&& 0x3fff).toNat := by
  have hint : typeIsInteger t = false := by rw [typeIsInteger_eq_not_isBlob, h]; rfl
  simp [afRpcGetSizeOfType, hint]

theorem blobSize_lt (t : BitVec 16) : (t &&& 0x3fff).toNat ≤ 16383 := by
  rw [BitVec.toNat_and]
  exact Nat.and_le_right

theorem ofType_of_isBlob {t : BitVec 16} (h : typeIsBlob t = true) : IntKind.ofType t = none := by
  cases hk : IntKind.ofType t with
  | none => rfl
  | some k =>
      rw [IntKind.type_of_ofType hk] at h
      exact absurd h (not_isBlob_type k)

theorem payloadSize_of_isBlob {t : BitVec 16} (h : typeIsBlob t = true) :
    payloadSize t = some (t &&& 0x3fff).toNat := by
  simp [payloadSize, ofType_of_isBlob h, h]

theorem payloadSize_type (k : IntKind) : payloadSize k.type = some k.width := by
  simp [payloadSize, IntKind.ofType_type]

/-- A well-formed type is an integer kind or a blob, and the code's size lookup
    agrees with the grammar on it. -/
theorem payloadSize_eq_some {t : BitVec 16} {n : Nat} (h : payloadSize t = some n) :
    (∃ k : IntKind, t = k.type ∧ n = k.width) ∨
      (typeIsBlob t = true ∧ n = (t &&& 0x3fff).toNat) := by
  unfold payloadSize at h
  split at h
  · rename_i k hk
    left
    exact ⟨k, IntKind.type_of_ofType hk, (Option.some.inj h).symm⟩
  · split_ifs at h with hb
    right
    exact ⟨hb, (Option.some.inj h).symm⟩

theorem sizeOfType_of_payloadSize {t : BitVec 16} {n : Nat} (h : payloadSize t = some n) :
    afRpcGetSizeOfType t = n := by
  rcases payloadSize_eq_some h with ⟨k, rfl, rfl⟩ | ⟨hb, rfl⟩
  · exact sizeOfType_type k
  · exact sizeOfType_blob hb

theorem payloadSize_le {t : BitVec 16} {n : Nat} (h : payloadSize t = some n) : n ≤ 16383 := by
  rcases payloadSize_eq_some h with ⟨k, rfl, rfl⟩ | ⟨hb, rfl⟩
  · cases k <;> decide
  · exact blobSize_lt t

/-- The code loads an integer type exactly if the grammar knows it: a type that
    passes the mask test and is in neither `switch` is a reserved one. -/
theorem loadedInt_eq_none_iff {t : BitVec 16} : loadedInt t = none ↔ IntKind.ofType t = none := by
  simp only [loadedInt, IntKind.ofType]
  split_ifs <;> simp_all

end AfIpc.Rpc
