/-
  AfIpc.Ipc.RequestSpec

  What the request functions do, one lemma for each way they can end.  The
  lemmas about `af_ipc_send` need the addresses it hands out to be new
  (`Fresh`), since it finds the record and the event it has just made by
  address.
-/

import AfIpc.Lib.FirstMatch
import AfIpc.Ipc.Requests

namespace AfIpc.Ipc

open AfIpc.Lib

/-! ## Sequence ids -/

theorem nextSeqId_toNat (last : BitVec 16) :
    (nextSeqId last).toNat = if (last.toNat + 1) % 2 ^ 15 = 0 then 1
      else (last.toNat + 1) % 2 ^ 15 := by
  have hmask : ((last + 1) &&& 0x7fff).toNat = (last.toNat + 1) % 2 ^ 15 := by
    have hpow : (0x7fff : BitVec 16).toNat = 2 ^ 15 - 1 := by decide
    rw [BitVec.toNat_and, hpow, Nat.and_two_pow_sub_one_eq_mod, BitVec.toNat_add]
    have hone : (1 : BitVec 16).toNat = 1 := by decide
    rw [hone]
    omega
  have hzero : (last + 1) &&& 0x7fff = 0 ↔ (last.toNat + 1) % 2 ^ 15 = 0 := by
    rw [← hmask]
    refine ⟨?_, ?_⟩
    · intro h
      rw [h]
      rfl
    · intro h
      exact BitVec.eq_of_toNat_eq h
  unfold nextSeqId
  by_cases h : (last + 1) &&& 0x7fff = 0
  · rw [if_pos h, if_pos (hzero.mp h), h]
    rfl
  · rw [if_neg h, if_neg (fun h' => h (hzero.mpr h')), hmask]

theorem nextSeqId_pos (last : BitVec 16) : 0 < (nextSeqId last).toNat := by
  rw [nextSeqId_toNat]
  split_ifs <;> omega

theorem nextSeqId_lt (last : BitVec 16) : (nextSeqId last).toNat < 2 ^ 15 := by
  rw [nextSeqId_toNat]
  split_ifs <;> omega

/-- Below the wrap the ids count up. -/
theorem nextSeqId_of_lt {last : BitVec 16} (h : last.toNat < 2 ^ 15 - 1) :
    (nextSeqId last).toNat = last.toNat + 1 := by
  rw [nextSeqId_toNat, Nat.mod_eq_of_lt (by omega), if_neg (by omega)]

/-- The sequence number a new request gets. -/
def newSeqNum (rc : ReqControl) : BitVec 32 := (nextSeqId rc.lastSeqId).setWidth 32

@[simp] theorem newSeqNum_toNat (rc : ReqControl) :
    (newSeqNum rc).toNat = (nextSeqId rc.lastSeqId).toNat := by
  rw [newSeqNum, BitVec.toNat_setWidth]
  exact Nat.mod_eq_of_lt (by have := nextSeqId_lt rc.lastSeqId; omega)

/-! ## Addresses -/

/-- Nothing lies at the addresses the event base has yet to hand out. -/
structure Fresh (rc : ReqControl) (base : EventBase) : Prop where
  requests : ∀ r ∈ rc.pendingRequests, r.ptr < base.next
  events : ∀ e ∈ base.events, e.id < base.next

theorem setEvent_of_fresh {rc : ReqControl} {n : Nat} (h : ∀ r ∈ rc.pendingRequests, r.ptr < n)
    (event : Option Nat) : rc.setEvent n event = rc := by
  have hmap : rc.pendingRequests.map (fun r => if r.ptr = n then { r with event := event } else r)
      = rc.pendingRequests := by
    conv_rhs => rw [← List.map_id rc.pendingRequests]
    apply List.map_congr_left
    intro r hr
    have hlt := h r hr
    rw [if_neg (by omega)]
    rfl
  rw [ReqControl.setEvent, hmap]

theorem setEvent_head {rc : ReqControl} {req : Request}
    (h : ∀ r ∈ rc.pendingRequests, r.ptr < req.ptr) (event : Option Nat) :
    (afIpcUtilFindUnusedRequest rc req).setEvent req.ptr event =
      afIpcUtilFindUnusedRequest rc { req with event := event } := by
  have hrest := setEvent_of_fresh h event
  rw [ReqControl.setEvent, ReqControl.mk.injEq] at hrest
  simp only [afIpcUtilFindUnusedRequest, ReqControl.setEvent, List.map_cons, if_true]
  rw [hrest.2.2]

/-- An event that is made and added at once. -/
theorem eventAdd_eventNew {base : EventBase} (h : ∀ e ∈ base.events, e.id < base.next)
    (arg : EventArg) :
    eventAdd (eventNew arg base).1 (eventNew arg base).2 =
      ⟨⟨base.next, arg, true⟩ :: base.events, base.next + 1⟩ := by
  have hmap : base.events.map (fun e => if e.id = base.next then { e with added := true } else e)
      = base.events := by
    conv_rhs => rw [← List.map_id base.events]
    apply List.map_congr_left
    intro e he
    have hlt := h e he
    rw [if_neg (by omega)]
    rfl
  show eventAdd base.next ⟨⟨base.next, arg, false⟩ :: base.events, base.next + 1⟩ = _
  simp only [eventAdd, List.map_cons, if_true]
  rw [hmap]

/-- Freeing the newest event leaves the others. -/
theorem eventFree_head {base : EventBase} {n next : Nat} {arg : EventArg} {added : Bool}
    (h : ∀ e ∈ base.events, e.id < n) :
    eventFree n ⟨⟨n, arg, added⟩ :: base.events, next⟩ = ⟨base.events, next⟩ := by
  have hfilter : base.events.filter (fun e => e.id != n) = base.events := by
    rw [List.filter_eq_self]
    intro e he
    have hlt := h e he
    simp only [bne_iff_ne, ne_eq]
    omega
  simp only [eventFree]
  rw [List.filter_cons_of_neg (by simp), hfilter]

/-- The record that has just been linked is the first with its number. -/
theorem removeRequest_head (rc : ReqControl) (req : Request) :
    afIpcRemoveRequest (afIpcUtilFindUnusedRequest rc req) req.seqNum = rc := by
  simp [afIpcRemoveRequest, afIpcUtilFindUnusedRequest]

/-! ## `af_ipc_send` -/

/-- Whether `af_ipc_send` succeeds, from its arguments and what it calls. -/
def sendSucceeds (rc : Option ReqControl) (txBufferSize timeoutMs : Int) (env : SendEnv) : Bool :=
  !oversize txBufferSize && env.sendmsg &&
    (decide (timeoutMs ≤ 0) || (rc.isSome && env.alloc && env.timer))

/-- The record of a request that is registered in `table`. -/
def newRequest (table : ReqControl) (base : EventBase) (callback : Option Callback)
    (context : Context) (timeoutMs : Int) : Request :=
  ⟨base.next, newSeqNum table, some (base.next + 1), timeoutMs, callback, context⟩

/-- The table with a new request. -/
def registerIn (table : ReqControl) (base : EventBase) (callback : Option Callback)
    (context : Context) (timeoutMs : Int) : ReqControl where
  lastSeqId := nextSeqId table.lastSeqId
  mutexCreated := table.mutexCreated
  pendingRequests := newRequest table base callback context timeoutMs :: table.pendingRequests

/-- The event base with the timer of a new request. -/
def armTimer (base : EventBase) : EventBase where
  events := ⟨base.next + 1, .request base.next, true⟩ :: base.events
  next := base.next + 2

section Send

variable {rc : Option ReqControl} {table : ReqControl} {base : EventBase} {seqNum : BitVec 32}
  {txBuffer : List Byte} {txBufferSize : Int} {callback : Option Callback} {context : Context}
  {timeoutMs : Int} {env : SendEnv}

theorem sendRegister_ok (halloc : env.alloc = true) (htimer : env.timer = true)
    (hfresh : Fresh table base) :
    sendRegister table base callback context timeoutMs env =
      .ok ⟨newSeqNum table, base.next, base.next + 1,
        registerIn table base callback context timeoutMs, armTimer base⟩ := by
  have hevents : ∀ e ∈ base.alloc.2.events, e.id < base.alloc.2.next :=
    fun e he => Nat.lt_succ_of_lt (hfresh.events e he)
  simp only [sendRegister, halloc, htimer, if_true]
  rw [eventAdd_eventNew hevents, setEvent_head hfresh.requests]
  rfl

/-- A request that gets no timer leaves nothing but its sequence id. -/
theorem sendRegister_error (halloc : env.alloc = true) (htimer : env.timer = false) :
    sendRegister table base callback context timeoutMs env =
      .error (env.timerErrno, { table with lastSeqId := nextSeqId table.lastSeqId },
        { base with next := base.next + 1 }) := by
  have hremove := removeRequest_head { table with lastSeqId := nextSeqId table.lastSeqId }
    ⟨base.next, newSeqNum table, none, timeoutMs, callback, context⟩
  simp only [sendRegister, halloc, htimer, if_true]
  rw [if_neg (by decide)]
  conv_rhs => rw [← hremove]
  rfl

/-- Unregistering undoes the registration but for the sequence id. -/
theorem sendUnregister_registerIn (hfresh : Fresh table base) :
    sendUnregister ⟨newSeqNum table, base.next, base.next + 1,
        registerIn table base callback context timeoutMs, armTimer base⟩ =
      ({ table with lastSeqId := nextSeqId table.lastSeqId },
        { base with next := base.next + 2 }) := by
  have hevents : ∀ e ∈ base.events, e.id < base.next + 1 :=
    fun e he => Nat.lt_succ_of_lt (hfresh.events e he)
  have hfree : eventFree (base.next + 1) (armTimer base) = { base with next := base.next + 2 } :=
    eventFree_head hevents
  have hset : (registerIn table base callback context timeoutMs).setEvent base.next none =
      afIpcUtilFindUnusedRequest { table with lastSeqId := nextSeqId table.lastSeqId }
        { newRequest table base callback context timeoutMs with event := none } :=
    @setEvent_head { table with lastSeqId := nextSeqId table.lastSeqId }
      (newRequest table base callback context timeoutMs) hfresh.requests none
  have hremove := removeRequest_head { table with lastSeqId := nextSeqId table.lastSeqId }
    { newRequest table base callback context timeoutMs with event := none }
  rw [sendUnregister, Prod.mk.injEq]
  refine ⟨?_, hfree⟩
  rw [← hset] at hremove
  exact hremove

theorem afIpcSend_ret :
    (afIpcSend rc base seqNum txBuffer txBufferSize callback context timeoutMs env).ret =
      if sendSucceeds rc txBufferSize timeoutMs env then 0 else -1 := by
  unfold afIpcSend sendSucceeds
  cases hover : oversize txBufferSize with
  | true => simp
  | false =>
      by_cases ht : timeoutMs > 0
      · have hle : ¬ timeoutMs ≤ 0 := by omega
        cases rc with
        | none => simp [ht, hle]
        | some table =>
            cases halloc : env.alloc with
            | false => simp [ht, hle, sendRegister, halloc]
            | true =>
                cases htm : env.timer with
                | false => simp [ht, hle, sendRegister, halloc, htm]
                | true =>
                    cases hmsg : env.sendmsg with
                    | false => simp [ht, hle, sendRegister, halloc, htm]
                    | true => simp [ht, hle, sendRegister, halloc, htm]
      · have hle : timeoutMs ≤ 0 := by omega
        cases hmsg : env.sendmsg with
        | false => simp [ht, hle]
        | true => simp [ht, hle]

theorem sendSucceeds_fits (hs : sendSucceeds rc txBufferSize timeoutMs env = true) :
    oversize txBufferSize = false ∧ env.sendmsg = true := by
  simp only [sendSucceeds, Bool.and_eq_true, Bool.not_eq_true'] at hs
  exact hs.1

/-- Without a table a send changes nothing. -/
theorem afIpcSend_none :
    (afIpcSend none base seqNum txBuffer txBufferSize callback context timeoutMs env).rc = none ∧
      (afIpcSend none base seqNum txBuffer txBufferSize callback context timeoutMs env).base =
        base := by
  unfold afIpcSend
  by_cases hover : oversize txBufferSize = true
  · rw [if_pos hover]
    exact ⟨rfl, rfl⟩
  rw [if_neg hover]
  by_cases ht : timeoutMs > 0
  · rw [if_pos ht]
    exact ⟨rfl, rfl⟩
  rw [if_neg ht]
  by_cases hmsg : env.sendmsg = true
  · rw [if_pos hmsg]
    exact ⟨rfl, rfl⟩
  · rw [if_neg hmsg]
    exact ⟨rfl, rfl⟩

/-- A send without a response that succeeds changes nothing. -/
theorem afIpcSend_plain (hs : sendSucceeds rc txBufferSize timeoutMs env = true)
    (ht : timeoutMs ≤ 0) :
    afIpcSend rc base seqNum txBuffer txBufferSize callback context timeoutMs env =
      ⟨0, none, some (makePacket seqNum txBuffer txBufferSize), rc, base⟩ := by
  simp only [sendSucceeds, Bool.and_eq_true, Bool.not_eq_true'] at hs
  obtain ⟨⟨hover, hmsg⟩, _⟩ := hs
  simp only [afIpcSend, hover, hmsg]
  rw [if_neg (by decide), if_neg (by omega)]
  rfl

/-- A send of a request that succeeds registers the request and arms its timer. -/
theorem afIpcSend_register (hs : sendSucceeds (some table) txBufferSize timeoutMs env = true)
    (ht : 0 < timeoutMs) (hfresh : Fresh table base) :
    afIpcSend (some table) base seqNum txBuffer txBufferSize callback context timeoutMs env =
      ⟨0, none, some (makePacket (newSeqNum table ||| newRequestMask) txBuffer txBufferSize),
        some (registerIn table base callback context timeoutMs), armTimer base⟩ := by
  simp only [sendSucceeds, Bool.and_eq_true, Bool.not_eq_true', Bool.or_eq_true,
    decide_eq_true_eq] at hs
  obtain ⟨⟨hover, hmsg⟩, hle | ⟨⟨_, halloc⟩, htimer⟩⟩ := hs
  · omega
  · simp only [afIpcSend, hover, hmsg, sendRegister_ok halloc htimer hfresh]
    rw [if_neg (by decide), if_pos (by omega)]
    rfl

/-- A send that fails leaves the requests and the timers; a sequence id may be
    used up. -/
theorem afIpcSend_fail (hs : sendSucceeds rc txBufferSize timeoutMs env = false)
    (hfresh : ∀ table, rc = some table → Fresh table base) :
    ∃ errno packet rc' next,
      afIpcSend rc base seqNum txBuffer txBufferSize callback context timeoutMs env =
        ⟨-1, some errno, packet, rc', { base with next := next }⟩ ∧ base.next ≤ next ∧
      (packet.isSome = true → env.sendmsg = false) ∧
      (rc' = rc ∨ ∃ table, rc = some table ∧
        rc' = some { table with lastSeqId := nextSeqId table.lastSeqId }) := by
  unfold afIpcSend
  by_cases hover : oversize txBufferSize = true
  · rw [if_pos hover]
    exact ⟨_, _, _, _, rfl, Nat.le_refl _, (nofun), .inl rfl⟩
  rw [if_neg hover]
  rw [Bool.not_eq_true] at hover
  by_cases ht : timeoutMs > 0
  · rw [if_pos ht]
    cases rc with
    | none => exact ⟨_, _, _, _, rfl, Nat.le_refl _, (nofun), .inl rfl⟩
    | some table =>
        have htable := hfresh table rfl
        cases halloc : env.alloc with
        | false =>
            refine ⟨enomem, none, some table, base.next, ?_, Nat.le_refl _,
              (nofun), .inl rfl⟩
            simp only [sendRegister, halloc]
            rfl
        | true =>
            cases htimer : env.timer with
            | false =>
                refine ⟨env.timerErrno, none, _, base.next + 1, ?_, Nat.le_succ _,
                  (nofun), .inr ⟨table, rfl, rfl⟩⟩
                simp only [sendRegister_error halloc htimer]
            | true =>
                have hmsg : env.sendmsg = false := by
                  simpa [sendSucceeds, hover, halloc, htimer] using hs
                refine ⟨env.sendErrno,
                  some (makePacket (newSeqNum table ||| newRequestMask) txBuffer txBufferSize), _,
                  base.next + 2, ?_, by omega, fun _ => hmsg, .inr ⟨table, rfl, rfl⟩⟩
                simp only [sendRegister_ok halloc htimer htable, hmsg,
                  sendUnregister_registerIn htable]
                rfl
  · rw [if_neg ht]
    have hmsg : env.sendmsg = false := by
      have hle : timeoutMs ≤ 0 := by omega
      simpa [sendSucceeds, hover, hle] using hs
    rw [hmsg]
    exact ⟨_, _, _, _, rfl, Nat.le_refl _, fun _ => rfl, .inl rfl⟩

end Send

/-! ## Packets -/

/-- The packet carries a payload, and its sizes are those of the payload. -/
structure Packet.Whole (p : Packet) : Prop where
  nonempty : p.txBuffer ≠ []
  iovLen : p.iovLen = p.txBuffer.length
  len : p.hdr.len.toNat = msghdrLen + p.txBuffer.length

theorem Packet.Whole.payload {p : Packet} (h : p.Whole) : p.frame.payload = p.txBuffer := by
  show p.txBuffer.take p.iovLen = p.txBuffer
  rw [h.iovLen, List.take_length]

/-- A whole packet puts its frame on the stream. -/
theorem Packet.Whole.bytes {p : Packet} (h : p.Whole) : p.bytes = p.frame.encode := by
  have hsize : p.frame.size = msghdrLen + p.txBuffer.length := by
    rw [Frame.size, h.payload]
  have hhdr : p.frame.hdr = p.hdr := by
    have hlen : BitVec.ofNat 16 p.frame.size = p.hdr.len := by
      rw [hsize, ← h.len, BitVec.ofNat_toNat, BitVec.setWidth_eq]
    rw [Frame.hdr, hlen]
    rfl
  rw [Packet.bytes, Frame.encode, hhdr]

/-- What `af_ipc_send` sends whole fits the receiver's buffer. -/
theorem makePacket_deliverable {seqNum : BitVec 32} {txBuffer : List Byte} {txBufferSize : Int}
    (hover : oversize txBufferSize = false) (h : (makePacket seqNum txBuffer txBufferSize).Whole) :
    (makePacket seqNum txBuffer txBufferSize).frame.Deliverable := by
  refine ⟨by rw [h.payload]; exact h.nonempty, ?_⟩
  have hfit : msghdrLen + txBuffer.length < 2 ^ 16 := by
    have hlt := (makePacket seqNum txBuffer txBufferSize).hdr.len.isLt
    rw [h.len] at hlt
    exact hlt
  have hiov : (txBufferSize % 2 ^ 64).toNat = txBuffer.length := h.iovLen
  have hlimit : ((txBufferSize + msghdrLen) % 2 ^ 64).toNat ≤ maxMsglen := by
    simpa [oversize, sizeT] using hover
  rw [Frame.size, h.payload]
  show msghdrLen + txBuffer.length ≤ maxMsglen
  simp only [msghdrLen, maxMsglen] at hfit hlimit ⊢
  omega

/-- A buffer given with its length, an `int`, is the payload. -/
theorem makePacket_payload {seqNum : BitVec 32} {txBuffer : List Byte}
    (hint : txBuffer.length < 2 ^ 31) :
    (makePacket seqNum txBuffer txBuffer.length).frame.payload = txBuffer := by
  show txBuffer.take (sizeT txBuffer.length) = txBuffer
  rw [sizeT_of_nonneg (by omega) (by omega), Int.toNat_natCast, List.take_length]

/-- A buffer given with its length, an `int`, makes a whole packet. -/
theorem makePacket_whole {seqNum : BitVec 32} {txBuffer : List Byte} (hne : txBuffer ≠ [])
    (hint : txBuffer.length < 2 ^ 31) (hover : oversize txBuffer.length = false) :
    (makePacket seqNum txBuffer txBuffer.length).Whole := by
  have hlimit : ((txBuffer.length + msghdrLen : Int) % 2 ^ 64).toNat ≤ maxMsglen := by
    simpa [oversize, sizeT] using hover
  simp only [msghdrLen, maxMsglen] at hlimit
  refine ⟨hne, ?_, ?_⟩
  · show ((txBuffer.length : Int) % 2 ^ 64).toNat = txBuffer.length
    omega
  · show (BitVec.ofInt 16 (txBuffer.length + msghdrLen)).toNat = msghdrLen + txBuffer.length
    rw [BitVec.toNat_ofInt]
    simp only [msghdrLen]
    omega

/-! ## Taking requests out -/

/-- The table without one of its requests. -/
def ReqControl.without (rc : ReqControl) (ptr : Nat) : ReqControl :=
  { rc with pendingRequests := rc.pendingRequests.filter (fun r => r.ptr ≠ ptr) }

theorem eventFree_timerFired (id : Nat) (base : EventBase) :
    eventFree id (timerFired id base) = eventFree id base := by
  have hkey : ∀ e : Event, (if e.id = id then { e with added := false } else e).id = e.id := by
    intro e
    split_ifs <;> rfl
  simp only [eventFree, timerFired, List.filter_map, Function.comp_def, hkey]
  rw [EventBase.mk.injEq]
  refine ⟨?_, rfl⟩
  conv_rhs => rw [← List.map_id (base.events.filter _)]
  apply List.map_congr_left
  intro e he
  have hne : e.id ≠ id := by simpa using (List.mem_filter.mp he).2
  rw [if_neg hne]
  rfl

theorem timerOf_eq_some {base : EventBase} {event ptr : Nat} (h : base.timerOf event = some ptr) :
    ∃ e ∈ base.events, e.id = event ∧ e.arg = .request ptr ∧ e.added = true := by
  unfold EventBase.timerOf at h
  split at h
  · rename_i id p hfind
    rw [Option.some.injEq] at h
    subst h
    have hid := List.find?_some hfind
    exact ⟨_, List.mem_of_find?_eq_some hfind, by simpa using hid, rfl, rfl⟩
  · cases h

/-- What a response does, in each of its two cases. -/
theorem takeResponse_cases {seqNum : BitVec 32} {rc rc' : ReqControl} {base base' : EventBase}
    {found : Option Request} (h : takeResponse seqNum rc base = (found, rc', base')) :
    (found = none ∧ rc.pendingRequests.find? (fun r => r.seqNum = seqNum) = none ∧
        rc' = rc ∧ base' = base) ∨
      ∃ req, found = some req ∧
        rc.pendingRequests.find? (fun r => r.seqNum = seqNum) = some req ∧
        rc' = afIpcRemoveRequest rc seqNum ∧
        base' = if req.timeoutVal > 0 then eventFreeIf req.event base else base := by
  unfold takeResponse at h
  split at h
  · rename_i hfind
    cases h
    exact .inl ⟨rfl, hfind, rfl, rfl⟩
  · rename_i req hfind
    cases h
    exact .inr ⟨req, rfl, hfind, rfl, rfl⟩

/-- A response that finds its request. -/
theorem takeResponse_found {seqNum : BitVec 32} {rc rc' : ReqControl} {base base' : EventBase}
    {req : Request} (h : takeResponse seqNum rc base = (some req, rc', base')) :
    rc.pendingRequests.find? (fun r => r.seqNum = seqNum) = some req ∧
      rc' = afIpcRemoveRequest rc seqNum ∧
      base' = if req.timeoutVal > 0 then eventFreeIf req.event base else base := by
  obtain ⟨hnone, -⟩ | ⟨r, hsome, hfind, hrc, hbase⟩ := takeResponse_cases h
  · cases hnone
  · cases hsome
    exact ⟨hfind, hrc, hbase⟩

/-- What a timeout of a pending request does. -/
theorem afIpcOnTimeout_found {ptr : Nat} {rc rc' : ReqControl} {base base' : EventBase}
    {req : Request} (h : afIpcOnTimeout ptr rc base = .ok (req, rc', base')) :
    rc.pendingRequests.find? (fun r => r.ptr = ptr) = some req ∧
      rc' = afIpcRemoveRequest (rc.setEvent ptr none) req.seqNum ∧
      base' = eventFreeIf req.event base := by
  unfold afIpcOnTimeout at h
  split at h
  · cases h
  · rename_i found hfind
    cases h
    exact ⟨hfind, rfl, rfl⟩

/-- A timeout fails only where the timer outlives its request. -/
theorem afIpcOnTimeout_error {ptr : Nat} {rc : ReqControl} {base : EventBase} {e : Fault}
    (h : afIpcOnTimeout ptr rc base = .error e) : e = .staleTimer := by
  unfold afIpcOnTimeout at h
  split at h
  · exact (Except.error.inj h).symm
  · cases h

/-- A response to no pending request changes nothing. -/
theorem takeResponse_none {rc : ReqControl} {base : EventBase} {seqNum : BitVec 32}
    (h : ∀ r ∈ rc.pendingRequests, r.seqNum ≠ seqNum) :
    takeResponse seqNum rc base = (none, rc, base) := by
  have hfind : rc.pendingRequests.find? (fun r => r.seqNum = seqNum) = none := by
    rw [List.find?_eq_none]
    intro r hr
    simpa using h r hr
  simp only [takeResponse, hfind]

theorem takeResponse_unmatched {rc rc' : ReqControl} {base base' : EventBase}
    {seqNum : BitVec 32} (h : takeResponse seqNum rc base = (none, rc', base')) :
    ∀ r ∈ rc.pendingRequests, r.seqNum ≠ seqNum := by
  obtain ⟨-, hfind, -, -⟩ | ⟨req, hsome, -⟩ := takeResponse_cases h
  · intro r hr
    simpa using List.find?_eq_none.mp hfind r hr
  · cases hsome

@[simp] theorem eventFreeIf_next (event : Option Nat) (base : EventBase) :
    (eventFreeIf event base).next = base.next := by
  cases event <;> rfl

@[simp] theorem shutdownRequests_next (rc : ReqControl) (base : EventBase) :
    (afIpcUtilShutdownRequests rc base).2.next = base.next := by
  unfold afIpcUtilShutdownRequests
  generalize rc.pendingRequests = reqs
  induction reqs generalizing base with
  | nil => rfl
  | cons r reqs ih =>
      show (List.foldl _ (eventFreeIf r.event base) reqs).next = base.next
      rw [ih, eventFreeIf_next]

/-- A response takes nothing in. -/
theorem takeResponse_sub {seqNum : BitVec 32} {rc rc' : ReqControl} {base base' : EventBase}
    {found : Option Request} (h : takeResponse seqNum rc base = (found, rc', base')) :
    base'.next = base.next ∧ ∀ r ∈ rc'.pendingRequests, r ∈ rc.pendingRequests := by
  obtain ⟨-, -, rfl, rfl⟩ | ⟨req, -, -, rfl, rfl⟩ := takeResponse_cases h
  · exact ⟨rfl, fun r hr => hr⟩
  · refine ⟨?_, fun r hr => List.mem_of_mem_eraseP hr⟩
    split_ifs
    · exact eventFreeIf_next _ _
    · rfl

/-- What a response that finds its request takes out: that request, and its event. -/
theorem takeResponse_some {seqNum : BitVec 32} {rc rc' : ReqControl} {base base' : EventBase}
    {req : Request} (h : takeResponse seqNum rc base = (some req, rc', base')) :
    req ∈ rc.pendingRequests ∧ req.seqNum = seqNum ∧
      (∀ r ∈ rc.pendingRequests, r.seqNum ≠ seqNum → r ∈ rc'.pendingRequests) ∧
      (∀ e ∈ base.events, req.event ≠ some e.id → e ∈ base'.events) ∧
      ∀ e ∈ base'.events, e ∈ base.events := by
  have hfree : ∀ event : Option Nat, (∀ e ∈ base.events, event ≠ some e.id →
      e ∈ (eventFreeIf event base).events) ∧
      ∀ e ∈ (eventFreeIf event base).events, e ∈ base.events := by
    intro event
    cases event with
    | none => exact ⟨fun e he _ => he, fun e he => he⟩
    | some id =>
        refine ⟨fun e he hne => List.mem_filter.mpr ⟨he, ?_⟩, fun e he => List.mem_of_mem_filter he⟩
        have hid : e.id ≠ id := fun heq => hne (congrArg some heq.symm)
        simpa using hid
  obtain ⟨hfind, rfl, rfl⟩ := takeResponse_found h
  refine ⟨List.mem_of_find?_eq_some hfind, by simpa using List.find?_some hfind, ?_, ?_, ?_⟩
  · intro r hr hne
    exact (List.mem_eraseP_of_neg (by simpa using hne)).mpr hr
  · split_ifs
    · exact (hfree req.event).1
    · exact fun e he _ => he
  · split_ifs
    · exact (hfree req.event).2
    · exact fun e he => he

/-- What a timeout takes out: the request at the address. -/
theorem afIpcOnTimeout_some {ptr : Nat} {rc rc' : ReqControl} {base base' : EventBase}
    {req : Request} (h : afIpcOnTimeout ptr rc base = .ok (req, rc', base')) :
    req ∈ rc.pendingRequests ∧ req.ptr = ptr := by
  obtain ⟨hfind, -, -⟩ := afIpcOnTimeout_found h
  exact ⟨List.mem_of_find?_eq_some hfind, by simpa using List.find?_some hfind⟩

/-- A timeout takes nothing in. -/
theorem afIpcOnTimeout_sub {ptr : Nat} {rc rc' : ReqControl} {base base' : EventBase}
    {req : Request} (h : afIpcOnTimeout ptr rc base = .ok (req, rc', base')) :
    base'.next = base.next ∧
      ∀ r ∈ rc'.pendingRequests, ∃ r' ∈ rc.pendingRequests, r'.ptr = r.ptr := by
  obtain ⟨-, rfl, rfl⟩ := afIpcOnTimeout_found h
  refine ⟨eventFreeIf_next _ _, fun r hr => ?_⟩
  obtain ⟨r', hr', rfl⟩ := List.mem_map.mp (List.mem_of_mem_eraseP hr)
  refine ⟨r', hr', ?_⟩
  split_ifs <;> rfl

section Removal

variable {rc : ReqControl} {base : EventBase} {req : Request}
  (hseq : (rc.pendingRequests.map Request.seqNum).Nodup)
  (hptr : (rc.pendingRequests.map Request.ptr).Nodup) (hmem : req ∈ rc.pendingRequests)

include hseq hptr hmem

/-- Removing by sequence number removes the request it is the number of. -/
theorem removeRequest_eq : afIpcRemoveRequest rc req.seqNum = rc.without req.ptr := by
  rw [afIpcRemoveRequest, ReqControl.without, eraseP_key hseq,
    filter_key hseq hptr hmem]

/-- So it does once the event of the request has been cleared. -/
theorem removeRequest_setEvent (event : Option Nat) :
    afIpcRemoveRequest (rc.setEvent req.ptr event) req.seqNum = rc.without req.ptr := by
  have hkey : ∀ r : Request,
      (if r.ptr = req.ptr then { r with event := event } else r).seqNum = r.seqNum := by
    intro r
    split_ifs <;> rfl
  have hseq' : ((rc.setEvent req.ptr event).pendingRequests.map Request.seqNum).Nodup := by
    simp only [ReqControl.setEvent, List.map_map, Function.comp_def, hkey]
    exact hseq
  have hfilter : (rc.setEvent req.ptr event).pendingRequests.filter
      (fun r => r.seqNum ≠ req.seqNum) =
      rc.pendingRequests.filter (fun r => r.seqNum ≠ req.seqNum) := by
    simp only [ReqControl.setEvent, List.filter_map, Function.comp_def, hkey]
    conv_rhs => rw [← List.map_id (rc.pendingRequests.filter _)]
    apply List.map_congr_left
    intro r hr
    have hne : r.ptr ≠ req.ptr := by
      rw [List.mem_filter] at hr
      intro heq
      have hsame := List.inj_on_of_nodup_map hptr hr.1 hmem heq
      simp [hsame] at hr
    rw [if_neg hne]
    rfl
  rw [afIpcRemoveRequest, eraseP_key hseq', hfilter, filter_key hseq hptr hmem]
  rfl

/-- A response takes out the request with its number. -/
theorem takeResponse_eq (hpos : 0 < req.timeoutVal) :
    takeResponse req.seqNum rc base =
      (some req, rc.without req.ptr, eventFreeIf req.event base) := by
  simp only [takeResponse, find?_key hseq hmem]
  rw [if_pos hpos, removeRequest_eq hseq hptr hmem]

/-- A timeout takes out the request at the address. -/
theorem afIpcOnTimeout_eq :
    afIpcOnTimeout req.ptr rc base =
      .ok (req, rc.without req.ptr, eventFreeIf req.event base) := by
  simp only [afIpcOnTimeout, find?_key hptr hmem]
  rw [removeRequest_setEvent hseq hptr hmem]

end Removal

/-! ## What the event base holds -/

/-- Every live event is of a kind. -/
def EventBase.All (P : Nat → EventArg → Prop) (base : EventBase) : Prop :=
  ∀ e ∈ base.events, P e.id e.arg

namespace EventBase.All

variable {P Q : Nat → EventArg → Prop} {base : EventBase}

theorem mono (h : base.All P) (hPQ : ∀ id arg, P id arg → Q id arg) : base.All Q :=
  fun e he => hPQ e.id e.arg (h e he)

theorem alloc (h : base.All P) : base.alloc.2.All P := h

theorem eventNew {arg : EventArg} (h : base.All P) (hnew : P base.next arg) :
    (Ipc.eventNew arg base).2.All P := by
  intro e he
  rcases List.mem_cons.mp he with rfl | he
  · exact hnew
  · exact h e he

theorem eventAdd (h : base.All P) (id : Nat) : (Ipc.eventAdd id base).All P := by
  intro e he
  obtain ⟨e', he', rfl⟩ := List.mem_map.mp he
  split_ifs
  · exact h e' he'
  · exact h e' he'

theorem timerFired (h : base.All P) (id : Nat) : (Ipc.timerFired id base).All P := by
  intro e he
  obtain ⟨e', he', rfl⟩ := List.mem_map.mp he
  split_ifs
  · exact h e' he'
  · exact h e' he'

theorem eventFree (h : base.All P) (id : Nat) :
    (Ipc.eventFree id base).All (fun i arg => P i arg ∧ i ≠ id) := by
  intro e he
  rw [Ipc.eventFree, List.mem_filter] at he
  exact ⟨h e he.1, by simpa using he.2⟩

theorem eventFreeIf (h : base.All P) (event : Option Nat) :
    (Ipc.eventFreeIf event base).All (fun i arg => P i arg ∧ event ≠ some i) := by
  cases event with
  | none => exact h.mono (fun i arg hp => ⟨hp, fun hne => by cases hne⟩)
  | some id =>
      refine (h.eventFree id).mono (fun i arg hp => ⟨hp.1, fun heq => hp.2 ?_⟩)
      exact (Option.some.inj heq).symm

theorem eventFreeIf_weak (h : base.All P) (event : Option Nat) :
    (Ipc.eventFreeIf event base).All P :=
  (h.eventFreeIf event).mono (fun _ _ hp => hp.1)

theorem shutdown (h : base.All P) (rc : ReqControl) :
    (afIpcUtilShutdownRequests rc base).2.All P := by
  unfold afIpcUtilShutdownRequests
  generalize rc.pendingRequests = reqs
  induction reqs generalizing base with
  | nil => exact h
  | cons r reqs ih => exact ih (h.eventFreeIf_weak r.event)

theorem takeResponse (h : base.All P) (seqNum : BitVec 32) (rc : ReqControl) :
    (Ipc.takeResponse seqNum rc base).2.2.All P := by
  unfold Ipc.takeResponse
  split
  · exact h
  · split_ifs
    · exact h.eventFreeIf_weak _
    · exact h

theorem taken (h : base.All P) {seqNum : BitVec 32} {rc rc' : ReqControl} {base' : EventBase}
    {found : Option Request} (htake : Ipc.takeResponse seqNum rc base = (found, rc', base')) :
    base'.All P := by
  have hall := h.takeResponse seqNum rc
  rw [htake] at hall
  exact hall

theorem onTimeout (h : base.All P) {ptr : Nat} {rc rc' : ReqControl} {base' : EventBase}
    {req : Request} (hok : afIpcOnTimeout ptr rc base = .ok (req, rc', base')) : base'.All P := by
  obtain ⟨-, -, rfl⟩ := afIpcOnTimeout_found hok
  exact h.eventFreeIf_weak _

/-- Sending adds no events but timers. -/
theorem send (h : base.All P) (htimer : ∀ id ptr, P id (.request ptr)) (rc : Option ReqControl)
    (seqNum : BitVec 32) (txBuffer : List Byte) (txBufferSize : Int) (callback : Option Callback)
    (context : Context) (timeoutMs : Int) (env : SendEnv) :
    (afIpcSend rc base seqNum txBuffer txBufferSize callback context timeoutMs env).base.All P := by
  have harmed : ((Ipc.eventAdd (Ipc.eventNew (.request base.alloc.1) base.alloc.2).1
      (Ipc.eventNew (.request base.alloc.1) base.alloc.2).2).All P) :=
    (h.alloc.eventNew (htimer _ _)).eventAdd _
  unfold afIpcSend
  by_cases hover : oversize txBufferSize = true
  · rw [if_pos hover]
    exact h
  rw [if_neg hover]
  by_cases ht : timeoutMs > 0
  · rw [if_pos ht]
    cases rc with
    | none => exact h
    | some table =>
        simp only [sendRegister]
        by_cases halloc : env.alloc = true
        · by_cases htm : env.timer = true
          · simp only [halloc, htm, if_true]
            by_cases hmsg : env.sendmsg = true
            · rw [if_pos hmsg]
              exact harmed
            · rw [if_neg hmsg]
              exact (harmed.eventFree _).mono (fun _ _ hp => hp.1)
          · simp only [halloc, if_true]
            rw [if_neg htm]
            exact h
        · rw [if_neg halloc]
          exact h
  · rw [if_neg ht]
    by_cases hmsg : env.sendmsg = true
    · rw [if_pos hmsg]
      exact h
    · rw [if_neg hmsg]
      exact h

end EventBase.All

end AfIpc.Ipc
