/-
  AfIpc.Ipc.Message

  The wire format of the IPC layer (`af_ipc_prv.h`): sequence numbers, the
  message header, and the chain of frames that `af_ipc_handle_receive_message`
  follows through what one `recv` returned.

  Both ends of an AF_UNIX socket are on one host, so the header is its bytes in
  memory; the model fixes little endian.
-/

import AfIpc.Lib.Bytes
import AfIpc.Lib.Splitter

namespace AfIpc.Ipc

open AfIpc.Lib

/-! ## Sequence numbers -/

/-- `AF_IPC_GET_CLIENT_ID`, cut to the `uint16_t` it is assigned to. -/
def getClientId (seqNum : BitVec 32) : BitVec 16 := (seqNum >>> 16).setWidth 16

/-- `AF_IPC_GET_SEQ_ID`. -/
def getSeqId (seqNum : BitVec 32) : BitVec 32 := seqNum &&& 0xFFFF

/-- `AF_IPC_SEQNUM_NEW_REQUEST_MASK`, the N bit. -/
def newRequestMask : BitVec 32 := 1 <<< 15

/-- `AF_IPC_SEQNUM_IS_NEW_REQUEST`. -/
def isNewRequest (seqNum : BitVec 32) : Bool := seqNum &&& newRequestMask != 0

/-- `af_ipc_get_client_id_from_seq_num`. -/
def afIpcGetClientIdFromSeqNum (seqNum : BitVec 32) : BitVec 16 := getClientId seqNum

/-- `af_ipc_seq_num_is_request`. -/
def afIpcSeqNumIsRequest (seqNum : BitVec 32) : Bool := getSeqId seqNum != 0

/-- The number a request or unsolicited message is passed on with: the client id
    above, the N bit off. -/
def deliveredSeqNum (clientId : BitVec 16) (seqNum : BitVec 32) : BitVec 32 :=
  (seqNum ||| clientId.setWidth 32 <<< 16) &&& ~~~newRequestMask

theorem getLsbD_newRequestMask (i : Nat) : newRequestMask.getLsbD i = decide (i = 15) := by
  have h : newRequestMask = BitVec.twoPow 32 15 := rfl
  rw [h, BitVec.getLsbD_twoPow]
  by_cases hi : i = 15
  · simp [hi]
  · simp [hi, Ne.symm hi]

theorem getLsbD_getSeqId (s : BitVec 32) (i : Nat) :
    (getSeqId s).getLsbD i = (s.getLsbD i && decide (i < 16)) := by
  have h : (0xFFFF : BitVec 32) = BitVec.ofNat 32 (2 ^ 16 - 1) := rfl
  rw [getSeqId, BitVec.getLsbD_and, h, BitVec.getLsbD_ofNat, Nat.testBit_two_pow_sub_one]
  by_cases hi : i < 32
  · simp [hi]
  · have : ¬ i < 16 := by omega
    simp [hi, this]

theorem isNewRequest_eq (s : BitVec 32) : isNewRequest s = s.getLsbD 15 := by
  rw [isNewRequest]
  cases h : s.getLsbD 15 with
  | true =>
      rw [bne_iff_ne]
      intro hz
      have hbit : (s &&& newRequestMask).getLsbD 15 = true := by
        rw [BitVec.getLsbD_and, getLsbD_newRequestMask, h]
        rfl
      rw [hz] at hbit
      cases hbit
  | false =>
      have hz : s &&& newRequestMask = 0 := by
        apply BitVec.eq_of_getLsbD_eq
        intro i hi
        rw [BitVec.getLsbD_and, getLsbD_newRequestMask]
        by_cases h15 : i = 15
        · rw [h15, h]
          rfl
        · simp [h15]
      rw [hz]
      rfl

theorem isNewRequest_getSeqId (s : BitVec 32) : isNewRequest (getSeqId s) = s.getLsbD 15 := by
  rw [isNewRequest_eq, getLsbD_getSeqId, Bool.and_eq_left_iff_imp]
  intro _
  rfl

/-- Numbers below the N bit. -/
theorem getLsbD_of_lt {id : BitVec 32} (h : id.toNat < 2 ^ 15) {i : Nat} (hi : 15 ≤ i) :
    id.getLsbD i = false := by
  have hpow : 2 ^ 15 ≤ 2 ^ i := Nat.pow_le_pow_right (by omega) hi
  exact Nat.testBit_lt_two_pow (by omega)

theorem isNewRequest_or_mask (id : BitVec 32) : isNewRequest (id ||| newRequestMask) = true := by
  rw [isNewRequest_eq, BitVec.getLsbD_or, getLsbD_newRequestMask]
  simp

theorem getSeqId_or_mask {id : BitVec 32} (h : id.toNat < 2 ^ 15) :
    getSeqId (id ||| newRequestMask) = id ||| newRequestMask := by
  apply BitVec.eq_of_getLsbD_eq
  intro i _
  rw [getLsbD_getSeqId, BitVec.getLsbD_or, getLsbD_newRequestMask]
  by_cases hi : i < 16
  · simp [hi]
  · have h15 : i ≠ 15 := by omega
    rw [getLsbD_of_lt h (by omega)]
    simp [h15]

theorem or_mask_inj {id id' : BitVec 32} (h : id.toNat < 2 ^ 15) (h' : id'.toNat < 2 ^ 15)
    (heq : id ||| newRequestMask = id' ||| newRequestMask) : id = id' := by
  apply BitVec.eq_of_getLsbD_eq
  intro i _
  by_cases hi : i = 15
  · rw [hi, getLsbD_of_lt h (Nat.le_refl 15), getLsbD_of_lt h' (Nat.le_refl 15)]
  · have hbit := congrArg (fun x => x.getLsbD i) heq
    simpa [BitVec.getLsbD_or, getLsbD_newRequestMask, hi] using hbit

theorem isNewRequest_deliveredSeqNum (clientId : BitVec 16) (seqNum : BitVec 32) :
    isNewRequest (deliveredSeqNum clientId seqNum) = false := by
  rw [isNewRequest_eq, deliveredSeqNum, BitVec.getLsbD_and, BitVec.getLsbD_not,
    getLsbD_newRequestMask]
  simp

theorem getSeqId_deliveredSeqNum (clientId : BitVec 16) (seqNum : BitVec 32) :
    getSeqId (deliveredSeqNum clientId seqNum) = getSeqId seqNum &&& ~~~newRequestMask := by
  apply BitVec.eq_of_getLsbD_eq
  intro i hi
  rw [getLsbD_getSeqId, deliveredSeqNum, BitVec.getLsbD_and, BitVec.getLsbD_and,
    BitVec.getLsbD_or, getLsbD_getSeqId, BitVec.getLsbD_shiftLeft]
  by_cases h16 : i < 16
  · simp [h16]
  · simp [h16]

theorem getClientId_deliveredSeqNum (clientId : BitVec 16) (seqNum : BitVec 32) :
    getClientId (deliveredSeqNum clientId (getSeqId seqNum)) = clientId := by
  apply BitVec.eq_of_getLsbD_eq
  intro i hi
  have h15 : ¬ 16 + i = 15 := by omega
  rw [getClientId, BitVec.getLsbD_setWidth, BitVec.getLsbD_ushiftRight, deliveredSeqNum,
    BitVec.getLsbD_and, BitVec.getLsbD_or, getLsbD_getSeqId, BitVec.getLsbD_not,
    getLsbD_newRequestMask, BitVec.getLsbD_shiftLeft, BitVec.getLsbD_setWidth]
  have h32 : 16 + i < 32 := by omega
  have h32' : i < 32 := by omega
  simp [hi, h15, h32, h32']

/-! ## The header -/

/-- `AF_IPC_MSGHDR_LEN`: four bytes, two bytes and two of padding. -/
def msghdrLen : Nat := 8

def maxMsglen : Nat := 4096

/-- `af_ipc_msghdr_t`. -/
structure MsgHdr where
  seqNum : BitVec 32
  len : BitVec 16
  deriving DecidableEq, Repr

/-- The header's bytes; `af_ipc_send` clears it, so the padding is zero. -/
def MsgHdr.encode (h : MsgHdr) : List Byte :=
  (toBe 4 h.seqNum.toNat).reverse ++ ((toBe 2 h.len.toNat).reverse ++ [0, 0])

/-- The header in the first eight bytes. -/
def MsgHdr.decode (bs : List Byte) : MsgHdr where
  seqNum := BitVec.ofNat 32 (ofBe (bs.take 4).reverse)
  len := BitVec.ofNat 16 (ofBe ((bs.drop 4).take 2).reverse)

@[simp] theorem MsgHdr.encode_length (h : MsgHdr) : h.encode.length = msghdrLen := by
  simp [MsgHdr.encode, msghdrLen]

theorem MsgHdr.decode_encode (h : MsgHdr) (ys : List Byte) :
    MsgHdr.decode (h.encode ++ ys) = h := by
  have h4 : (toBe 4 h.seqNum.toNat).reverse.length = 4 := by
    rw [List.length_reverse, toBe_length]
  have h2 : (toBe 2 h.len.toNat).reverse.length = 2 := by
    rw [List.length_reverse, toBe_length]
  have hseq : ofBe (toBe 4 h.seqNum.toNat) = h.seqNum.toNat := ofBe_toBe_of_lt h.seqNum.isLt
  have hlen : ofBe (toBe 2 h.len.toNat) = h.len.toNat := ofBe_toBe_of_lt h.len.isLt
  simp only [MsgHdr.decode, MsgHdr.encode, List.append_assoc]
  rw [List.take_left' h4, List.drop_left' h4, List.take_left' h2, List.reverse_reverse,
    List.reverse_reverse, hseq, hlen, BitVec.ofNat_toNat, BitVec.ofNat_toNat, BitVec.setWidth_eq,
    BitVec.setWidth_eq]

/-! ## Frames -/

/-- A frame: the sequence number of its header and its payload. -/
structure Frame where
  seqNum : BitVec 32
  payload : List Byte
  deriving DecidableEq, Repr

namespace Frame

def size (f : Frame) : Nat := msghdrLen + f.payload.length

def hdr (f : Frame) : MsgHdr := ⟨f.seqNum, BitVec.ofNat 16 f.size⟩

def encode (f : Frame) : List Byte := f.hdr.encode ++ f.payload

/-- A frame the receiver takes at the end of a chunk too: it has a payload, and
    fits the receive buffer. -/
def Deliverable (f : Frame) : Prop := f.payload ≠ [] ∧ f.size ≤ maxMsglen

@[simp] theorem encode_length (f : Frame) : f.encode.length = f.size := by
  simp [encode, size]

/-- The frame at the front of the unread bytes.  Eight bytes or fewer are never
    one, and neither is a length field that does not lie between the header and
    the end. -/
def head (xs : List Byte) : Option Frame :=
  if xs.length ≤ msghdrLen then none
  else
    let h := MsgHdr.decode xs
    if h.len.toNat > xs.length ∨ h.len.toNat < msghdrLen then none
    else some ⟨h.seqNum, (xs.drop msghdrLen).take (h.len.toNat - msghdrLen)⟩

theorem head_eq_some {xs : List Byte} {f : Frame} (h : head xs = some f) :
    msghdrLen < xs.length ∧ (MsgHdr.decode xs).len.toNat = f.size ∧ f.size ≤ xs.length ∧
      f.seqNum = (MsgHdr.decode xs).seqNum ∧
      f.payload = (xs.drop msghdrLen).take (f.size - msghdrLen) := by
  simp only [head] at h
  split_ifs at h with hshort hbad
  rw [Option.some.injEq] at h
  subst h
  have hsize : (Frame.mk (MsgHdr.decode xs).seqNum
      ((xs.drop msghdrLen).take ((MsgHdr.decode xs).len.toNat - msghdrLen))).size
      = (MsgHdr.decode xs).len.toNat := by
    rw [size, List.length_take, List.length_drop]
    omega
  rw [hsize]
  exact ⟨by omega, rfl, by omega, rfl, rfl⟩

/-- A frame that fits the receive buffer is taken if eight bytes are not all there is. -/
theorem head_encode_of_tail {f : Frame} (hmax : f.size ≤ maxMsglen) {ys : List Byte}
    (htail : f.payload ≠ [] ∨ ys ≠ []) : head (f.encode ++ ys) = some f := by
  have hpos : 0 < f.payload.length + ys.length := by
    rcases htail with hne | hne
    · have h := List.length_pos_iff.mpr hne
      omega
    · have h := List.length_pos_iff.mpr hne
      omega
  have hsize : f.size = msghdrLen + f.payload.length := rfl
  have hlen : (f.encode ++ ys).length = f.size + ys.length := by
    rw [List.length_append, encode_length]
  have hdecode : MsgHdr.decode (f.encode ++ ys) = f.hdr := by
    rw [encode, List.append_assoc, MsgHdr.decode_encode]
  have hfield : f.hdr.len.toNat = f.size := by
    rw [hdr, BitVec.toNat_ofNat]
    exact Nat.mod_eq_of_lt (by rw [maxMsglen] at hmax; omega)
  have hpay : ((f.encode ++ ys).drop msghdrLen).take (f.size - msghdrLen) = f.payload := by
    rw [encode, List.append_assoc, List.drop_left' (MsgHdr.encode_length f.hdr)]
    exact List.take_left' (by omega)
  simp only [head, hdecode, hfield, hlen]
  rw [if_neg (by omega), if_neg (by omega), hpay]
  rfl

theorem head_encode {f : Frame} (h : f.Deliverable) (ys : List Byte) :
    head (f.encode ++ ys) = some f :=
  head_encode_of_tail h.2 (Or.inl h.1)

end Frame

/-- The frames of a chunk, as a self-delimiting format. -/
def frames : Splitter Byte Frame where
  head := Frame.head
  size := Frame.size
  size_pos := by
    intro xs f _
    rw [Frame.size, msghdrLen]
    omega
  size_le := by
    intro xs f h
    exact (Frame.head_eq_some h).2.2.1

theorem frames_encodes : frames.Encodes Frame.encode Frame.Deliverable where
  head_enc := by
    intro f ys h
    exact Frame.head_encode h ys
  length_enc := by
    intro f _
    exact f.encode_length

end AfIpc.Ipc
