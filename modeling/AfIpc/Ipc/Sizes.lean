/-
  AfIpc.Ipc.Sizes

  The sizes of what `af_ipc_send` passes to `sendmsg`.  The size is an `int`, to
  which the size of the header is added as a `size_t`; the sum is compared with the
  limit and cut to the 16 bits of the length field, and the size itself becomes
  the `size_t` of the second `iovec`.  For a size of 0 to 4088 the four agree.
  From -8 to -1 the sum wraps to 0 to 7, which is no more than the limit, and the
  length of the `iovec` to nearly 2^64.  That `sendmsg` refuses, but a request has
  been registered by then, under a sequence id that is not given back.
-/

import AfIpc.Ipc.RequestSpec

namespace AfIpc.Ipc

open AfIpc.Lib

-- ============================================================================
-- Consistent frames
-- ============================================================================

/-- The length field is the number of bytes in the two `iovec`s and lies within the
    limits, so that the receiver takes the frame. -/
structure Packet.Consistent (p : Packet) : Prop where
  total : p.hdr.len.toNat = msghdrLen + p.iovLen
  low : msghdrLen ≤ p.hdr.len.toNat
  high : p.hdr.len.toNat ≤ maxMsglen
  /-- The frame arrives whole, and other bytes follow. -/
  taken : ∀ payload other : List Byte, payload.length = p.iovLen → other ≠ [] →
    Frame.head (p.hdr.encode ++ payload ++ other) = some ⟨p.hdr.seqNum, payload⟩

/-- `sendmsg` refuses `iovec`s with more bytes than an `ssize_t` can count. -/
def SendEnv.Kernel (env : SendEnv) (txBufferSize : Int) : Prop :=
  2 ^ 63 ≤ msghdrLen + sizeT txBufferSize → env.sendmsg = false ∧ env.sendErrno = einval

/-- `af_ipc_send` fails with `EINVAL`, having changed and written nothing, or passes a
    consistent frame to `sendmsg`. -/
inductive Disciplined (rc : Option ReqControl) (base : EventBase) (env : SendEnv) (r : SendResult) :
    Prop
  | refused (hret : r.ret = -1) (herrno : r.errno = some einval) (hrc : r.rc = rc)
      (hbase : r.base = base) (hwritten : r.packet = none ∨ env.sendmsg = false)
  | passed {packet : Packet} (hpacket : r.packet = some packet) (h : packet.Consistent)

/-- A message that is no request may have any size; a request has no size that wraps,
    unless it is refused for want of a table, and one that gets so far gets a slot and a
    timer. -/
inductive Sized (rc : Option ReqControl) (txBufferSize timeoutMs : Int) (env : SendEnv) : Prop
  | plain (ht : timeoutMs ≤ 0)
  | tooSmall (h : txBufferSize < -8)
  | tooLarge (h : 4088 < txBufferSize)
  | noTable (ht : 0 < timeoutMs) (hrc : rc = none)
  | fits (h : 0 ≤ txBufferSize) (halloc : env.alloc = true) (htimer : env.timer = true)

-- ============================================================================
-- The four conversions
-- ============================================================================

section Sizes

variable {seqNum : BitVec 32} {txBuffer : List Byte} {txBufferSize : Int}

theorem oversize_iff (hlow : -2 ^ 31 ≤ txBufferSize) (hhigh : txBufferSize < 2 ^ 31) :
    oversize txBufferSize = true ↔ txBufferSize < -8 ∨ 4088 < txBufferSize := by
  have hlimit : oversize txBufferSize = true ↔ 4096 < ((txBufferSize + 8) % 2 ^ 64).toNat := by
    rw [oversize, decide_eq_true_iff]
    rfl
  rw [hlimit]
  omega

theorem makePacket_consistent (hlow : 0 ≤ txBufferSize) (hhigh : txBufferSize ≤ 4088) :
    (makePacket seqNum txBuffer txBufferSize).Consistent := by
  have hlen : (makePacket seqNum txBuffer txBufferSize).hdr.len.toNat = (txBufferSize + 8).toNat := by
    show (BitVec.ofInt 16 (txBufferSize + 8)).toNat = _
    rw [BitVec.toNat_ofInt]
    omega
  have hiov : (makePacket seqNum txBuffer txBufferSize).iovLen = txBufferSize.toNat := by
    show sizeT txBufferSize = _
    exact sizeT_of_nonneg hlow (by omega)
  have hhdr : msghdrLen = 8 := rfl
  have hmax : maxMsglen = 4096 := rfl
  refine ⟨by omega, by omega, by omega, fun payload other hpayload hother => ?_⟩
  -- the header is that of the frame with this payload
  have hsize : (Frame.mk seqNum payload).size = (txBufferSize + 8).toNat := by
    show msghdrLen + payload.length = _
    omega
  have hframe : (makePacket seqNum txBuffer txBufferSize).hdr = (Frame.mk seqNum payload).hdr := by
    rw [Frame.hdr, hsize, ← hlen, BitVec.ofNat_toNat, BitVec.setWidth_eq]
    rfl
  rw [hframe]
  exact Frame.head_encode_of_tail (by omega) (Or.inr hother)

/-- A size from -8 to -1: the length field is below that of a header. -/
theorem makePacket_wraps (hlow : -8 ≤ txBufferSize) (hhigh : txBufferSize < 0) :
    (makePacket seqNum txBuffer txBufferSize).hdr.len.toNat < msghdrLen ∧
      (makePacket seqNum txBuffer txBufferSize).iovLen = (2 ^ 64 + txBufferSize).toNat := by
  refine ⟨?_, ?_⟩
  · show (BitVec.ofInt 16 (txBufferSize + 8)).toNat < 8
    rw [BitVec.toNat_ofInt]
    omega
  · show (txBufferSize % 2 ^ 64).toNat = _
    omega

theorem makePacket_consistent_iff (hlow : -8 ≤ txBufferSize) (hhigh : txBufferSize ≤ 4088) :
    (makePacket seqNum txBuffer txBufferSize).Consistent ↔ 0 ≤ txBufferSize := by
  refine ⟨?_, ?_⟩
  · intro h
    by_contra hneg
    have hlt := (@makePacket_wraps seqNum txBuffer txBufferSize hlow (by omega)).1
    have hle := h.low
    omega
  · exact fun hnonneg => makePacket_consistent hnonneg hhigh

end Sizes

-- ============================================================================
-- The ways to `sendmsg`
-- ============================================================================

section Send

variable {rc : Option ReqControl} {table : ReqControl} {base : EventBase} {seqNum : BitVec 32}
  {txBuffer : List Byte} {txBufferSize : Int} {callback : Option Callback} {context : Context}
  {timeoutMs : Int} {env : SendEnv}

theorem nextSeqId_ne (last : BitVec 16) : nextSeqId last ≠ last := by
  intro heq
  have hnext := nextSeqId_toNat last
  rw [heq] at hnext
  have hlt := last.isLt
  split_ifs at hnext <;> omega

/-- Arguments that are refused at once. -/
theorem afIpcSend_refused
    (h : oversize txBufferSize = true ∨ 0 < timeoutMs ∧ rc = none) :
    afIpcSend rc base seqNum txBuffer txBufferSize callback context timeoutMs env =
      ⟨-1, some einval, none, rc, base⟩ := by
  unfold afIpcSend
  by_cases hover : oversize txBufferSize = true
  · rw [if_pos hover]
  · obtain ⟨ht, rfl⟩ := h.resolve_left hover
    rw [if_neg hover, if_pos ht]

/-- A message that is no request gets to `sendmsg`, and changes nothing. -/
theorem afIpcSend_unnumbered (hover : oversize txBufferSize = false) (ht : timeoutMs ≤ 0) :
    afIpcSend rc base seqNum txBuffer txBufferSize callback context timeoutMs env =
      if env.sendmsg then ⟨0, none, some (makePacket seqNum txBuffer txBufferSize), rc, base⟩
      else ⟨-1, some env.sendErrno, some (makePacket seqNum txBuffer txBufferSize), rc, base⟩ := by
  unfold afIpcSend
  rw [hover, if_neg Bool.false_ne_true, if_neg (by omega)]

/-- A request that gets a slot and a timer gets to `sendmsg`, and has moved the last
    sequence id. -/
theorem afIpcSend_registered (hover : oversize txBufferSize = false) (ht : 0 < timeoutMs)
    (halloc : env.alloc = true) (htimer : env.timer = true) {r : SendResult}
    (hr : r = afIpcSend (some table) base seqNum txBuffer txBufferSize callback context timeoutMs
      env) :
    (∃ num, r.packet = some (makePacket num txBuffer txBufferSize)) ∧ r.rc ≠ some table := by
  have hmoved : ∀ table' : ReqControl, table'.lastSeqId = nextSeqId table.lastSeqId →
      some table' ≠ some table := by
    intro table' hlast heq
    rw [Option.some.inj heq] at hlast
    exact nextSeqId_ne table.lastSeqId hlast.symm
  subst hr
  unfold afIpcSend
  rw [hover, if_neg Bool.false_ne_true, if_pos ht]
  simp only [sendRegister, halloc, htimer, if_true]
  by_cases hmsg : env.sendmsg = true
  · rw [if_pos hmsg]
    exact ⟨⟨_, rfl⟩, hmoved _ rfl⟩
  · rw [if_neg hmsg]
    exact ⟨⟨_, rfl⟩, hmoved _ rfl⟩

/-- A message of the size gets to `sendmsg`, unless it is a request that cannot be
    registered. -/
theorem afIpcSend_passes (hover : oversize txBufferSize = false)
    (hreq : 0 < timeoutMs → rc.isSome = true ∧ env.alloc = true ∧ env.timer = true) :
    ∃ num, (afIpcSend rc base seqNum txBuffer txBufferSize callback context timeoutMs env).packet =
      some (makePacket num txBuffer txBufferSize) := by
  by_cases ht : 0 < timeoutMs
  · obtain ⟨hsome, halloc, htimer⟩ := hreq ht
    obtain ⟨table, rfl⟩ := Option.isSome_iff_exists.mp hsome
    exact (afIpcSend_registered hover ht halloc htimer rfl).1
  · rw [afIpcSend_unnumbered hover (by omega)]
    by_cases hmsg : env.sendmsg = true
    · rw [if_pos hmsg]
      exact ⟨_, rfl⟩
    · rw [if_neg hmsg]
      exact ⟨_, rfl⟩

/-- A request that gets no slot, or no timer: nothing is written, but the error is
    another one, or the last sequence id has moved. -/
theorem afIpcSend_unregistered (hover : oversize txBufferSize = false) (ht : 0 < timeoutMs)
    (hreq : ¬ (env.alloc = true ∧ env.timer = true)) {r : SendResult}
    (hr : r = afIpcSend (some table) base seqNum txBuffer txBufferSize callback context timeoutMs
      env) :
    r.packet = none ∧ ¬ (r.errno = some einval ∧ r.rc = some table) := by
  subst hr
  unfold afIpcSend
  rw [hover, if_neg Bool.false_ne_true, if_pos ht]
  by_cases halloc : env.alloc = true
  · have htimer : env.timer = false := by
      rw [← Bool.not_eq_true]
      exact fun htimer => hreq ⟨halloc, htimer⟩
    simp only [sendRegister_error halloc htimer]
    refine ⟨trivial, fun h => ?_⟩
    have hid := congrArg (fun rc => rc.map ReqControl.lastSeqId) h.2
    exact nextSeqId_ne table.lastSeqId (Option.some.inj hid)
  · simp only [sendRegister, if_neg halloc]
    refine ⟨trivial, fun h => ?_⟩
    cases h.1

/-- A request that is not refused at once: its size has not wrapped, and it is
    registered. -/
theorem disciplined_request_iff (hlow : -8 ≤ txBufferSize) (hhigh : txBufferSize ≤ 4088)
    (hover : oversize txBufferSize = false) (ht : 0 < timeoutMs) :
    Disciplined (some table) base env
        (afIpcSend (some table) base seqNum txBuffer txBufferSize callback context timeoutMs env) ↔
      0 ≤ txBufferSize ∧ env.alloc = true ∧ env.timer = true := by
  by_cases hreq : env.alloc = true ∧ env.timer = true
  · obtain ⟨⟨num, hpacket⟩, hmoved⟩ := @afIpcSend_registered table base seqNum txBuffer
      txBufferSize callback context timeoutMs env hover ht hreq.1 hreq.2 _ rfl
    have hconsistent := @makePacket_consistent_iff num txBuffer txBufferSize hlow hhigh
    refine ⟨?_, fun h => .passed hpacket (hconsistent.mpr h.1)⟩
    intro h
    cases h with
    | refused _ _ hrc _ _ => exact absurd hrc hmoved
    | passed hsent h =>
        rw [hpacket] at hsent
        obtain rfl := Option.some.inj hsent
        exact ⟨hconsistent.mp h, hreq⟩
  · obtain ⟨hnone, herrno⟩ := @afIpcSend_unregistered table base seqNum txBuffer txBufferSize
      callback context timeoutMs env hover ht hreq _ rfl
    refine ⟨?_, fun h => absurd h.2 hreq⟩
    intro h
    cases h with
    | refused _ heinval hrc _ _ => exact absurd ⟨heinval, hrc⟩ herrno
    | passed hsent _ =>
        rw [hnone] at hsent
        cases hsent

/-- A message that is no request: where the size has wrapped, `sendmsg` refuses it. -/
theorem disciplined_plain (hlow : -8 ≤ txBufferSize) (hhigh : txBufferSize ≤ 4088)
    (hover : oversize txBufferSize = false) (ht : timeoutMs ≤ 0)
    (hkernel : env.Kernel txBufferSize) :
    Disciplined rc base env
      (afIpcSend rc base seqNum txBuffer txBufferSize callback context timeoutMs env) := by
  rw [afIpcSend_unnumbered hover ht]
  by_cases hneg : txBufferSize < 0
  · have hiov := (@makePacket_wraps seqNum txBuffer txBufferSize hlow hneg).2
    have hlong : 2 ^ 63 ≤ msghdrLen + sizeT txBufferSize := by
      have hlen : sizeT txBufferSize = (2 ^ 64 + txBufferSize).toNat := hiov
      omega
    obtain ⟨hmsg, herrno⟩ := hkernel hlong
    rw [if_neg (by rw [hmsg]; exact Bool.false_ne_true)]
    exact .refused rfl (congrArg some herrno) rfl rfl (.inr hmsg)
  · have hconsistent := @makePacket_consistent seqNum txBuffer txBufferSize (by omega) hhigh
    by_cases hmsg : env.sendmsg = true
    · rw [if_pos hmsg]
      exact .passed rfl hconsistent
    · rw [if_neg hmsg]
      exact .passed rfl hconsistent

/-- **Every frame handed to the socket is consistent**, or the call fails with `EINVAL`
    and no effect, exactly unless it is a request whose size wraps, or one that cannot be
    registered. -/
theorem disciplined_iff (hlow : -2 ^ 31 ≤ txBufferSize) (hhigh : txBufferSize < 2 ^ 31)
    (hkernel : env.Kernel txBufferSize) :
    Disciplined rc base env
        (afIpcSend rc base seqNum txBuffer txBufferSize callback context timeoutMs env) ↔
      Sized rc txBufferSize timeoutMs env := by
  have hover := oversize_iff hlow hhigh
  by_cases hrefused : oversize txBufferSize = true ∨ 0 < timeoutMs ∧ rc = none
  · rw [afIpcSend_refused hrefused]
    refine ⟨fun _ => ?_, fun _ => .refused rfl rfl rfl rfl (.inl rfl)⟩
    rcases hrefused with hsize | ⟨ht, hrc⟩
    · rcases hover.mp hsize with hsmall | hlarge
      · exact .tooSmall hsmall
      · exact .tooLarge hlarge
    · exact .noTable ht hrc
  obtain ⟨hsize, htable⟩ := not_or.mp hrefused
  have hfits : oversize txBufferSize = false := by simpa using hsize
  rw [hover, not_or] at hsize
  by_cases ht : 0 < timeoutMs
  · obtain ⟨table, rfl⟩ : ∃ table, rc = some table := by
      rw [← Option.ne_none_iff_exists']
      exact fun hnone => htable ⟨ht, hnone⟩
    rw [disciplined_request_iff (by omega) (by omega) hfits ht]
    refine ⟨fun h => .fits h.1 h.2.1 h.2.2, ?_⟩
    intro h
    cases h with
    | plain hle => omega
    | tooSmall h => omega
    | tooLarge h => omega
    | noTable _ hrc => cases hrc
    | fits h halloc htimer => exact ⟨h, halloc, htimer⟩
  · exact iff_of_true (disciplined_plain (by omega) (by omega) hfits (by omega) hkernel)
      (.plain (by omega))

end Send

/-- A response of one byte. -/
theorem disciplined_iff_one_byte :
    Disciplined none ⟨[], 0⟩ .good (afIpcSend none ⟨[], 0⟩ 0x10001 [9] 1 none 0 0 .good) ↔
      Sized none 1 0 .good :=
  disciplined_iff (by decide) (by decide) (fun h => absurd h (by decide))

/-- A request whose size is `AF_RPC_ERR_BUFFER_OVERFLOW`, -1: `sendmsg` refuses it, and a
    sequence id is used up. -/
theorem error_code_sent :
    SendEnv.Kernel ⟨true, true, 0, false, einval⟩ (-1) ∧
      ¬ Disciplined (some ReqControl.zero) ⟨[], 0⟩ ⟨true, true, 0, false, einval⟩
        (afIpcSend (some ReqControl.zero) ⟨[], 0⟩ 0 [9] (-1) (some 9) 0 1000
          ⟨true, true, 0, false, einval⟩) := by
  refine ⟨fun _ => ⟨rfl, rfl⟩, fun h => ?_⟩
  cases h with
  | refused _ _ hrc =>
      have hlast := congrArg (fun rc => rc.map ReqControl.lastSeqId) hrc
      revert hlast
      decide
  | passed hpacket h =>
      obtain rfl := Option.some.inj hpacket
      have hlow := h.low
      revert hlow
      decide

end AfIpc.Ipc
