/-
  AfIpc.Ipc.Correlation

  Which request a response callback is called for.  `Rule` says what each call an
  endpoint makes follows from, in terms of the calls before it; it holds of every
  call of a run in which no table registers 2^15 requests and no more than
  2^16 - 1 connections are accepted (`Bounded`).  `Correlates` is the invariant
  that carries it: the pending requests are the requests sent and not yet
  answered, their numbers are those sent on their own connection, and each timer
  is that of a pending request.
-/

import AfIpc.Ipc.Endpoint

namespace AfIpc.Ipc

open AfIpc.Lib

-- ============================================================================
-- Bounds
-- ============================================================================

/-- A registered request is sent on a connection. -/
def Call.isRequestOn (conn : Nat) : Call → Bool
  | .sendmsg p _ (.request _ _) packet true => p = conn && isNewRequest packet.hdr.seqNum
  | _ => false

def Call.isAccept : Call → Bool
  | .accept _ => true
  | _ => false

/-- How many requests have been registered and sent on a connection. -/
def requestsOn (conn : Nat) (trace : List Call) : Nat := trace.countP (Call.isRequestOn conn)

/-- How many connections have been taken from the listening socket. -/
def acceptsOf (trace : List Call) : Nat := trace.countP Call.isAccept

/-- No table has registered 2^15 requests, and no 2^16 connections have been
    accepted. -/
structure Bounded (trace : List Call) : Prop where
  requests : ∀ conn, requestsOn conn trace < 2 ^ 15
  accepts : acceptsOf trace < 2 ^ 16

theorem requestsOn_append (conn : Nat) (t u : List Call) :
    requestsOn conn (t ++ u) = requestsOn conn t + requestsOn conn u := List.countP_append

theorem acceptsOf_append (t u : List Call) : acceptsOf (t ++ u) = acceptsOf t + acceptsOf u :=
  List.countP_append

theorem Bounded.past {t u : List Call} (h : Bounded (t ++ u)) : Bounded t where
  requests := by
    intro conn
    have hall := h.requests conn
    rw [requestsOn_append] at hall
    omega
  accepts := by
    have hall := h.accepts
    rw [acceptsOf_append] at hall
    omega

-- ============================================================================
-- What each call follows from
-- ============================================================================

/-- A message that is sent: a response is numbered as a message received on the
    same connection, if on any; an unsolicited message has the number 0, and so
    has a request that expects no response; and the other requests of a
    connection are numbered 1, 2, 3 and so on. -/
structure Sent (past : List Call) (conn : Nat) (sentBy : SentBy) (packet : Packet) : Prop where
  fits : packet.Whole → packet.frame.Deliverable
  response : sentBy = .response → ∀ p payload context,
    .receiveCallback p packet.hdr.seqNum payload context ∈ past → p = conn
  plain : sentBy ≠ .response → packet.hdr.seqNum = 0 ∨
    ∃ callback context id, sentBy = .request callback context ∧
      packet.hdr.seqNum = id ||| newRequestMask ∧ id.toNat = requestsOn conn past + 1 ∧
      id.toNat < 2 ^ 15

/-- The application is passed the frame just taken. -/
def Received (past : List Call) (conn : Nat) (seqNum : BitVec 32) (payload : List Byte) : Prop :=
  ∃ past' f cid, past = past' ++ [.frame conn f] ∧ f.IsNew ∧
    seqNum = deliveredSeqNum cid (getSeqId f.seqNum) ∧ payload = f.payload

/-- The request has been sent on the connection. -/
structure WasSent (past : List Call) (conn : Nat) (req : Request) : Prop where
  pos : 0 < req.seqNum.toNat
  lt : req.seqNum.toNat < 2 ^ 15
  sent : ∃ fd packet, .sendmsg conn fd (.request req.responseCallback req.responseContext) packet
    true ∈ past ∧ packet.hdr.seqNum = req.seqNum ||| newRequestMask

/-- The request has not had its callback. -/
def Waits (past : List Call) (conn : Nat) (req : Request) : Prop :=
  ∀ req' status seqNum payload, .responseCallback conn req' status seqNum payload ∈ past →
    req'.ptr ≠ req.ptr

/-- The callback of a request: it was sent and waits, and either it has timed out
    or the frame just taken is a response with its number. -/
structure Responded (past : List Call) (conn : Nat) (req : Request) (status : Int)
    (payload : List Byte) : Prop where
  wasSent : WasSent past conn req
  waits : Waits past conn req
  cause : status = statusTimeout ∨ status = statusOk ∧ ∃ past' f,
    past = past' ++ [.frame conn f] ∧ ¬ f.IsNew ∧ getSeqId f.seqNum = req.seqNum ∧
      payload = f.payload

def Rule (past : List Call) : Call → Prop
  | .sendmsg conn _ sentBy packet true => Sent past conn sentBy packet
  | .receiveCallback conn seqNum payload _ => Received past conn seqNum payload
  | .responseCallback conn req status _ payload => Responded past conn req status payload
  | _ => True

/-- A call that follows from nothing. -/
def Call.neutral : Call → Bool
  | .sendmsg _ _ _ _ ok => !ok
  | .receiveCallback _ _ _ _ => false
  | .responseCallback _ _ _ _ _ => false
  | _ => true

theorem Call.neutral_rule {c : Call} (h : c.neutral = true) (past : List Call) : Rule past c := by
  cases c with
  | sendmsg conn fd sentBy packet ok =>
      cases ok with
      | true => cases h
      | false => trivial
  | receiveCallback => cases h
  | responseCallback => cases h
  | _ => trivial

theorem Call.neutral_of_inert {c : Call} (h : c.inert = true) : c.neutral = true := by
  cases c <;> first | rfl | exact h

theorem Call.neutral_of_closing {c : Call} {conn : Nat} (h : c.closing conn = true) :
    c.neutral = true := by
  cases c <;> first | rfl | exact h

theorem requestsOn_neutral {calls : List Call} (h : ∀ c ∈ calls, c.neutral = true) (conn : Nat) :
    requestsOn conn calls = 0 := by
  rw [requestsOn, List.countP_eq_zero]
  intro c hc
  have hn := h c hc
  cases c with
  | sendmsg p fd sentBy packet ok =>
      cases ok with
      | true => cases hn
      | false => cases sentBy <;> exact Bool.false_ne_true
  | _ => exact Bool.false_ne_true

-- ============================================================================
-- The invariant
-- ============================================================================

structure Correlates (h : Endpoint) : Prop where
  rule : Justified Rule h.trace
  /-- The last number of a table counts its requests. -/
  seqIds : ∀ c ∈ h.conns, c.table.lastSeqId.toNat = requestsOn c.ptr h.trace
  unborn : ∀ p, h.base.next ≤ p → requestsOn p h.trace = 0
  range : ∀ c ∈ h.conns, ∀ r ∈ c.table.pendingRequests,
    r.seqNum.toNat ≤ c.table.lastSeqId.toNat ∧ 0 < r.timeoutVal
  sent : ∀ c ∈ h.conns, ∀ r ∈ c.table.pendingRequests, WasSent h.trace c.ptr r
  waits : ∀ c ∈ h.conns, ∀ r ∈ c.table.pendingRequests, Waits h.trace c.ptr r
  seqNums : ∀ c ∈ h.conns, (c.table.pendingRequests.map Request.seqNum).Nodup
  ptrs : ∀ c ∈ h.conns, (c.table.pendingRequests.map Request.ptr).Nodup
  timers : h.base.All (fun id arg => ∀ ptr, arg = .request ptr →
    ∃ c ∈ h.conns, ∃ r ∈ c.table.pendingRequests, r.ptr = ptr ∧ r.event = some id)
  completed : ∀ conn req status seqNum payload,
    .responseCallback conn req status seqNum payload ∈ h.trace → req.ptr < h.base.next
  /-- A number that the application was given holds the id of its connection. -/
  given : ∀ conn seqNum payload context,
    .receiveCallback conn seqNum payload context ∈ h.trace →
      conn < h.base.next ∧ (getClientId seqNum).toNat ≤ h.lastCid.toNat ∧
      ∀ c ∈ h.conns, c.cid = getClientId seqNum → c.ptr = conn
  cids : ∀ c ∈ h.conns, c.cid.toNat ≤ h.lastCid.toNat
  accepts : h.lastCid.toNat ≤ acceptsOf h.trace

theorem WasSent.append {past calls : List Call} {conn : Nat} {req : Request}
    (h : WasSent past conn req) : WasSent (past ++ calls) conn req where
  pos := h.pos
  lt := h.lt
  sent := by
    obtain ⟨fd, packet, hmem, hseq⟩ := h.sent
    exact ⟨fd, packet, List.mem_append_left calls hmem, hseq⟩

section Correlates

variable {h : Endpoint} {c : Conn}

/-- One more call, which registers nothing. -/
theorem Correlates.call (hC : Correlates h) {call : Call} (hrule : Rule h.trace call)
    (hcount : ∀ p, requestsOn p [call] = 0)
    (hcompleted : ∀ conn req status seqNum payload,
      call = .responseCallback conn req status seqNum payload → req.ptr < h.base.next ∧
        ∀ d ∈ h.conns, d.ptr = conn → ∀ r ∈ d.table.pendingRequests, req.ptr ≠ r.ptr)
    (hgiven : ∀ conn seqNum payload context,
      call = .receiveCallback conn seqNum payload context → conn < h.base.next ∧
        (getClientId seqNum).toNat ≤ h.lastCid.toNat ∧
        ∀ d ∈ h.conns, d.cid = getClientId seqNum → d.ptr = conn) :
    Correlates (h.note [call]) where
  rule := justified_concat.mpr ⟨hC.rule, hrule⟩
  seqIds := by
    intro d hd
    show _ = requestsOn d.ptr (h.trace ++ [call])
    rw [requestsOn_append, hcount]
    exact hC.seqIds d hd
  unborn := by
    intro p hp
    show requestsOn p (h.trace ++ [call]) = 0
    rw [requestsOn_append, hcount]
    exact hC.unborn p hp
  range := hC.range
  sent := fun d hd r hr => (hC.sent d hd r hr).append
  waits := by
    intro d hd r hr req status seqNum payload hmem
    rcases List.mem_append.mp hmem with hold | hnew
    · exact hC.waits d hd r hr req status seqNum payload hold
    · exact (hcompleted _ _ _ _ _ (List.mem_singleton.mp hnew).symm).2 d hd rfl r hr
  seqNums := hC.seqNums
  ptrs := hC.ptrs
  timers := hC.timers
  completed := by
    intro conn req status seqNum payload hmem
    rcases List.mem_append.mp hmem with hold | hnew
    · exact hC.completed conn req status seqNum payload hold
    · exact (hcompleted _ _ _ _ _ (List.mem_singleton.mp hnew).symm).1
  given := by
    intro conn seqNum payload context hmem
    rcases List.mem_append.mp hmem with hold | hnew
    · exact hC.given conn seqNum payload context hold
    · exact hgiven _ _ _ _ (List.mem_singleton.mp hnew).symm
  cids := hC.cids
  accepts := by
    show _ ≤ acceptsOf (h.trace ++ [call])
    rw [acceptsOf_append]
    exact Nat.le_add_right_of_le hC.accepts

/-- Calls that follow from nothing. -/
theorem Correlates.neutral (hC : Correlates h) (calls : List Call)
    (hn : ∀ c ∈ calls, c.neutral = true) : Correlates (h.note calls) := by
  induction calls generalizing h with
  | nil =>
      rw [Endpoint.note, List.append_nil]
      exact hC
  | cons call calls ih =>
      have hcall : call.neutral = true := hn call List.mem_cons_self
      have hone : Correlates (h.note [call]) := by
        refine hC.call (call.neutral_rule hcall h.trace) (requestsOn_neutral (by simpa using hcall))
          ?_ ?_
        · rintro conn req status seqNum payload rfl
          cases hcall
        · rintro conn seqNum payload context rfl
          cases hcall
      rw [← List.singleton_append, ← note_note]
      exact ih hone (fun c hc => hn c (List.mem_cons_of_mem call hc))

/-- Another event base whose timers are all those of pending requests. -/
theorem Correlates.setBase (hC : Correlates h) {base : EventBase} (hnext : h.base.next ≤ base.next)
    (htimers : base.All (fun id arg => ∀ ptr, arg = .request ptr →
      ∃ c ∈ h.conns, ∃ r ∈ c.table.pendingRequests, r.ptr = ptr ∧ r.event = some id)) :
    Correlates (h.setBase base) where
  rule := hC.rule
  seqIds := hC.seqIds
  unborn := fun p hp => hC.unborn p (Nat.le_trans hnext hp)
  range := hC.range
  sent := hC.sent
  waits := hC.waits
  seqNums := hC.seqNums
  ptrs := hC.ptrs
  timers := htimers
  completed := fun conn req status seqNum payload hmem =>
    Nat.lt_of_lt_of_le (hC.completed conn req status seqNum payload hmem) hnext
  given := by
    intro conn seqNum payload context hmem
    obtain ⟨hlt, hrest⟩ := hC.given conn seqNum payload context hmem
    exact ⟨Nat.lt_of_lt_of_le hlt hnext, hrest⟩
  cids := hC.cids
  accepts := hC.accepts

/-- A request leaves its table once its timer has left the event base. -/
theorem Correlates.remove (hC : Correlates h) (hptrs : (h.conns.map Conn.ptr).Nodup)
    (hc : c ∈ h.conns) {req : Request} (hmem : req ∈ c.table.pendingRequests)
    (hfreed : h.base.All (fun id _ => req.event ≠ some id)) :
    Correlates (h.setConn { c with table := c.table.without req.ptr }) := by
  have hsub : ∀ r ∈ (c.table.without req.ptr).pendingRequests, r ∈ c.table.pendingRequests :=
    fun r hr => List.mem_of_mem_filter hr
  exact
    { rule := hC.rule
      seqIds := by
        intro d hd
        rcases mem_setConn hd with rfl | ⟨hd, _⟩
        · exact hC.seqIds c hc
        · exact hC.seqIds d hd
      unborn := hC.unborn
      range := by
        intro d hd r hr
        rcases mem_setConn hd with rfl | ⟨hd, _⟩
        · exact hC.range c hc r (hsub r hr)
        · exact hC.range d hd r hr
      sent := by
        intro d hd r hr
        rcases mem_setConn hd with rfl | ⟨hd, _⟩
        · exact hC.sent c hc r (hsub r hr)
        · exact hC.sent d hd r hr
      waits := by
        intro d hd r hr
        rcases mem_setConn hd with rfl | ⟨hd, _⟩
        · exact hC.waits c hc r (hsub r hr)
        · exact hC.waits d hd r hr
      seqNums := by
        intro d hd
        rcases mem_setConn hd with rfl | ⟨hd, _⟩
        · exact (hC.seqNums c hc).sublist (List.filter_sublist.map _)
        · exact hC.seqNums d hd
      ptrs := by
        intro d hd
        rcases mem_setConn hd with rfl | ⟨hd, _⟩
        · exact (hC.ptrs c hc).sublist (List.filter_sublist.map _)
        · exact hC.ptrs d hd
      timers := by
        intro e he ptr harg
        obtain ⟨d, hd, r, hr, hptr, hevent⟩ := hC.timers e he ptr harg
        by_cases heq : d.ptr = c.ptr
        · cases List.inj_on_of_nodup_map hptrs hd hc heq
          refine ⟨_, setConn_self hc rfl, r, ?_, hptr, hevent⟩
          -- the timer is not that of the request, which has gone
          have hne : r.ptr ≠ req.ptr := by
            intro hsame
            rw [List.inj_on_of_nodup_map (hC.ptrs c hc) hr hmem hsame] at hevent
            exact hfreed e he hevent
          exact List.mem_filter.mpr ⟨hr, by simpa using hne⟩
        · exact ⟨d, setConn_other hd heq, r, hr, hptr, hevent⟩
      completed := hC.completed
      given := by
        intro conn seqNum payload context hg
        obtain ⟨hlt, hle, hown⟩ := hC.given conn seqNum payload context hg
        refine ⟨hlt, hle, fun d hd => ?_⟩
        rcases mem_setConn hd with rfl | ⟨hd, _⟩
        · exact hown c hc
        · exact hown d hd
      cids := by
        intro d hd
        rcases mem_setConn hd with rfl | ⟨hd, _⟩
        · exact hC.cids c hc
        · exact hC.cids d hd
      accepts := hC.accepts }

/-- The callback of a request that has left its table. -/
theorem Correlates.respond (hC : Correlates h) {conn : Nat} {req : Request} {status : Int}
    {seqNum : BitVec 32} {payload : List Byte}
    (hrule : Responded h.trace conn req status payload)
    (hgone : ∀ d ∈ h.conns, d.ptr = conn → ∀ r ∈ d.table.pendingRequests, req.ptr ≠ r.ptr)
    (hptr : req.ptr < h.base.next) :
    Correlates (h.note [.responseCallback conn req status seqNum payload]) := by
  refine hC.call hrule (fun p => rfl) ?_ ?_
  · intro conn' req' status' seqNum' payload' heq
    cases heq
    exact ⟨hptr, hgone⟩
  · intro conn' seqNum' payload' context heq
    cases heq

/-- The application is passed a message. -/
theorem Correlates.receive (hC : Correlates h) (hl : Lives h) (hc : c ∈ h.conns)
    {seqNum : BitVec 32} {payload : List Byte} {context : Context}
    (hrule : Received h.trace c.ptr seqNum payload) (hcid : getClientId seqNum = c.cid) :
    Correlates (h.note [.receiveCallback c.ptr seqNum payload context]) := by
  refine hC.call hrule (fun p => rfl) ?_ ?_
  · intro conn req status seqNum' payload' heq
    cases heq
  · intro conn seqNum' payload' context' heq
    cases heq
    rw [hcid]
    refine ⟨hl.below c hc, hC.cids c hc, fun d hd heq => ?_⟩
    rw [List.inj_on_of_nodup_map hl.cids hd hc heq]

/-- A message that is sent and registers nothing. -/
theorem Correlates.send (hC : Correlates h) {conn : Nat} {fd : Int} {sentBy : SentBy}
    {packet : Packet} (hrule : Sent h.trace conn sentBy packet)
    (hplain : sentBy ≠ .response → packet.hdr.seqNum = 0) :
    Correlates (h.note [.sendmsg conn fd sentBy packet true]) := by
  refine hC.call hrule (fun p => ?_) ?_ ?_
  · cases sentBy with
    | request callback context =>
        have hzero := hplain (by simp)
        simp [requestsOn, Call.isRequestOn, hzero, isNewRequest]
    | response => rfl
    | unsolicited => rfl
  · intro conn' req status seqNum payload heq
    cases heq
  · intro conn' seqNum payload context heq
    cases heq

/-- A request is registered and sent. -/
theorem Correlates.register (hC : Correlates h) (hl : Lives h) (hc : c ∈ h.conns) {fd : Int}
    {packet : Packet} {callback : Option Callback} {context : Context} {timeoutMs : Int}
    (ht : 0 < timeoutMs) (hsize : packet.Whole → packet.frame.Deliverable)
    (hnum : packet.hdr.seqNum = newSeqNum c.table ||| newRequestMask)
    (hbound : requestsOn c.ptr h.trace + 1 < 2 ^ 15) :
    Correlates (((h.setConn
        { c with table := registerIn c.table h.base callback context timeoutMs }).setBase
      (armTimer h.base)).note [.sendmsg c.ptr fd (.request callback context) packet true]) := by
  have hlast : c.table.lastSeqId.toNat < 2 ^ 15 - 1 := by
    rw [hC.seqIds c hc]
    omega
  have hnew : (nextSeqId c.table.lastSeqId).toNat = requestsOn c.ptr h.trace + 1 := by
    rw [nextSeqId_of_lt hlast, hC.seqIds c hc]
  have hnumber : (newSeqNum c.table).toNat = requestsOn c.ptr h.trace + 1 := by
    rw [newSeqNum_toNat, hnew]
  have hisnew : isNewRequest packet.hdr.seqNum = true := by
    rw [hnum]
    exact isNewRequest_or_mask _
  have hcount : ∀ p, requestsOn p [.sendmsg c.ptr fd (.request callback context) packet true] =
      if c.ptr = p then 1 else 0 := by
    intro p
    simp [requestsOn, Call.isRequestOn, hisnew, List.countP_singleton]
  have hself : WasSent (h.trace ++ [.sendmsg c.ptr fd (.request callback context) packet true])
      c.ptr (newRequest c.table h.base callback context timeoutMs) :=
    { pos := by
        show 0 < (newSeqNum c.table).toNat
        omega
      lt := by
        show (newSeqNum c.table).toNat < 2 ^ 15
        omega
      sent := ⟨fd, packet, List.mem_append_right _ List.mem_cons_self, hnum⟩ }
  have hwaits : ∀ conn req, Waits h.trace conn req →
      Waits (h.trace ++ [.sendmsg c.ptr fd (.request callback context) packet true]) conn req := by
    intro conn req hw req' status seqNum payload hmem
    rcases List.mem_append.mp hmem with hold | hnew
    · exact hw req' status seqNum payload hold
    · cases List.mem_singleton.mp hnew
  exact
    { rule := by
        refine justified_concat.mpr ⟨hC.rule, ⟨hsize, fun heq => ?_, fun _ => .inr ?_⟩⟩
        · cases heq
        · exact ⟨callback, context, newSeqNum c.table, rfl, hnum, hnumber, by omega⟩
      seqIds := by
        intro d hd
        show _ = requestsOn d.ptr (h.trace ++ _)
        rw [requestsOn_append, hcount]
        rcases mem_setConn hd with rfl | ⟨hd, hne⟩
        · rw [if_pos rfl]
          exact hnew
        · rw [if_neg (Ne.symm hne)]
          exact hC.seqIds d hd
      unborn := by
        intro p hp
        show requestsOn p (h.trace ++ _) = 0
        have hle : h.base.next + 2 ≤ p := hp
        have hlt := hl.below c hc
        rw [requestsOn_append, hcount, if_neg (by omega)]
        exact hC.unborn p (by omega)
      range := by
        intro d hd r hr
        rcases mem_setConn hd with rfl | ⟨hd, _⟩
        · rcases List.mem_cons.mp hr with rfl | hr
          · exact ⟨Nat.le_of_eq (newSeqNum_toNat c.table), ht⟩
          · obtain ⟨hle, hpos⟩ := hC.range c hc r hr
            refine ⟨?_, hpos⟩
            show _ ≤ (nextSeqId c.table.lastSeqId).toNat
            rw [nextSeqId_of_lt hlast]
            omega
        · exact hC.range d hd r hr
      sent := by
        intro d hd r hr
        rcases mem_setConn hd with rfl | ⟨hd, _⟩
        · rcases List.mem_cons.mp hr with rfl | hr
          · exact hself
          · exact (hC.sent c hc r hr).append
        · exact (hC.sent d hd r hr).append
      waits := by
        intro d hd r hr
        rcases mem_setConn hd with rfl | ⟨hd, _⟩
        · rcases List.mem_cons.mp hr with rfl | hr
          · -- the address is new
            refine hwaits _ _ (fun req' status seqNum payload hmem => ?_)
            have hlt := hC.completed _ _ _ _ _ hmem
            exact Nat.ne_of_lt hlt
          · exact hwaits _ _ (hC.waits c hc r hr)
        · exact hwaits _ _ (hC.waits d hd r hr)
      seqNums := by
        intro d hd
        rcases mem_setConn hd with rfl | ⟨hd, _⟩
        · -- the number is above those of the other requests
          refine List.nodup_cons.mpr ⟨fun hmem => ?_, hC.seqNums c hc⟩
          obtain ⟨r, hr, heq⟩ := List.mem_map.mp hmem
          have hle := (hC.range c hc r hr).1
          have hval : r.seqNum.toNat = (newSeqNum c.table).toNat := congrArg BitVec.toNat heq
          rw [newSeqNum_toNat, nextSeqId_of_lt hlast] at hval
          omega
        · exact hC.seqNums d hd
      ptrs := by
        intro d hd
        rcases mem_setConn hd with rfl | ⟨hd, _⟩
        · refine List.nodup_cons.mpr ⟨fun hmem => ?_, hC.ptrs c hc⟩
          obtain ⟨r, hr, heq⟩ := List.mem_map.mp hmem
          have hlt := hl.requests c hc r hr
          have hptr : r.ptr = h.base.next := heq
          omega
        · exact hC.ptrs d hd
      timers := by
        intro e he ptr harg
        rcases List.mem_cons.mp he with rfl | he
        · cases harg
          exact ⟨_, setConn_self hc rfl, _, List.mem_cons_self, rfl, rfl⟩
        · obtain ⟨d, hd, r, hr, hptr, hevent⟩ := hC.timers e he ptr harg
          by_cases heq : d.ptr = c.ptr
          · cases hl.eq_of_ptr hc hd heq
            exact ⟨_, setConn_self hc rfl, r, List.mem_cons_of_mem _ hr, hptr, hevent⟩
          · exact ⟨d, setConn_other hd heq, r, hr, hptr, hevent⟩
      completed := by
        intro conn req status seqNum payload hmem
        rcases List.mem_append.mp hmem with hold | hnew
        · exact Nat.lt_add_right 2 (hC.completed conn req status seqNum payload hold)
        · cases List.mem_singleton.mp hnew
      given := by
        intro conn seqNum payload context' hmem
        rcases List.mem_append.mp hmem with hold | hnew
        · obtain ⟨hlt, hle, hown⟩ := hC.given conn seqNum payload context' hold
          refine ⟨Nat.lt_add_right 2 hlt, hle, fun d hd => ?_⟩
          rcases mem_setConn hd with rfl | ⟨hd, _⟩
          · exact hown c hc
          · exact hown d hd
        · cases List.mem_singleton.mp hnew
      cids := by
        intro d hd
        rcases mem_setConn hd with rfl | ⟨hd, _⟩
        · exact hC.cids c hc
        · exact hC.cids d hd
      accepts := by
        show _ ≤ acceptsOf (h.trace ++ _)
        rw [acceptsOf_append]
        exact Nat.le_add_right_of_le hC.accepts }

/-- A connection id is given out. -/
theorem Correlates.number (hC : Correlates h) (fd : Int) {cid : BitVec 16} (hcid : NextCid h cid)
    (hbound : acceptsOf h.trace + 1 < 2 ^ 16) :
    Correlates
        { conns := h.conns, lastCid := cid,
          base := { h.base with next := h.base.next + 1 }, trace := h.trace ++ [.accept fd] } ∧
      h.lastCid.toNat < cid.toNat := by
  have haccepts := hC.accepts
  have hnext : cid.toNat = h.lastCid.toNat + 1 := hcid.succ hC.cids (by omega)
  have hnoted : Correlates ((h.note [.accept fd]).setBase
      { h.base with next := h.base.next + 1 }) :=
    (hC.neutral [.accept fd] (by simp [Call.neutral])).setBase (Nat.le_succ _) hC.timers
  refine ⟨{ hnoted with given := ?_, cids := ?_, accepts := ?_ }, by omega⟩
  · intro conn seqNum payload context hmem
    obtain ⟨hlt, hle, hown⟩ := hnoted.given conn seqNum payload context hmem
    have hle' : (getClientId seqNum).toNat ≤ h.lastCid.toNat := hle
    exact ⟨hlt, by show _ ≤ cid.toNat; omega, hown⟩
  · intro d hd
    have hle := hC.cids d hd
    show d.cid.toNat ≤ cid.toNat
    omega
  · show cid.toNat ≤ acceptsOf (h.trace ++ [.accept fd])
    have hone : acceptsOf [.accept fd] = 1 := rfl
    rw [acceptsOf_append, hone]
    omega

/-- A connection comes with an empty table. -/
theorem Correlates.arrive (hC : Correlates h) {fd : Int} (hptr : c.ptr = h.base.next)
    (hpending : c.table.pendingRequests = []) (hlast : c.table.lastSeqId = 0)
    (hcid : NextCid h c.cid) (hbound : acceptsOf h.trace + 1 < 2 ^ 16) :
    Correlates
      { conns := c :: h.conns, lastCid := c.cid,
        base := { h.base with next := h.base.next + 1 }, trace := h.trace ++ [.accept fd] } := by
  obtain ⟨hnumbered, habove⟩ := hC.number fd hcid hbound
  have hnone : ∀ r, r ∉ c.table.pendingRequests := by
    intro r hr
    rw [hpending] at hr
    cases hr
  exact
    { rule := hnumbered.rule
      seqIds := by
        intro d hd
        rcases List.mem_cons.mp hd with rfl | hd
        · show _ = requestsOn d.ptr (h.trace ++ [.accept fd])
          rw [requestsOn_append, hC.unborn d.ptr (Nat.le_of_eq hptr.symm), hlast]
          rfl
        · exact hnumbered.seqIds d hd
      unborn := hnumbered.unborn
      range := by
        intro d hd r hr
        rcases List.mem_cons.mp hd with rfl | hd
        · exact absurd hr (hnone r)
        · exact hnumbered.range d hd r hr
      sent := by
        intro d hd r hr
        rcases List.mem_cons.mp hd with rfl | hd
        · exact absurd hr (hnone r)
        · exact hnumbered.sent d hd r hr
      waits := by
        intro d hd r hr
        rcases List.mem_cons.mp hd with rfl | hd
        · exact absurd hr (hnone r)
        · exact hnumbered.waits d hd r hr
      seqNums := by
        intro d hd
        rcases List.mem_cons.mp hd with rfl | hd
        · rw [hpending]
          exact List.nodup_nil
        · exact hnumbered.seqNums d hd
      ptrs := by
        intro d hd
        rcases List.mem_cons.mp hd with rfl | hd
        · rw [hpending]
          exact List.nodup_nil
        · exact hnumbered.ptrs d hd
      timers := by
        intro e he ptr harg
        obtain ⟨d, hd, hrest⟩ := hC.timers e he ptr harg
        exact ⟨d, List.mem_cons_of_mem c hd, hrest⟩
      completed := hnumbered.completed
      given := by
        intro conn seqNum payload context hmem
        obtain ⟨hlt, hle, hown⟩ := hnumbered.given conn seqNum payload context hmem
        refine ⟨hlt, hle, fun d hd heq => ?_⟩
        rcases List.mem_cons.mp hd with rfl | hd
        · -- no message has been given with the new id
          have hmem' : .receiveCallback conn seqNum payload context ∈ h.trace := by
            simpa using hmem
          have hold := (hC.given conn seqNum payload context hmem').2.1
          rw [← heq] at hold
          omega
        · exact hown d hd heq
      cids := by
        intro d hd
        rcases List.mem_cons.mp hd with rfl | hd
        · exact Nat.le_refl _
        · exact hnumbered.cids d hd
      accepts := hnumbered.accepts }

/-- A connection gets its receive event. -/
theorem Correlates.watch (hC : Correlates h) (hl : Lives h) (hc : c ∈ h.conns) :
    Correlates ((h.setConn { c with event := some h.base.next }).setBase
      (eventNew (.client c.ptr) h.base).2) where
  rule := hC.rule
  seqIds := by
    intro d hd
    rcases mem_setConn hd with rfl | ⟨hd, _⟩
    · exact hC.seqIds c hc
    · exact hC.seqIds d hd
  unborn := fun p hp => hC.unborn p (Nat.le_of_succ_le hp)
  range := by
    intro d hd
    rcases mem_setConn hd with rfl | ⟨hd, _⟩
    · exact hC.range c hc
    · exact hC.range d hd
  sent := by
    intro d hd
    rcases mem_setConn hd with rfl | ⟨hd, _⟩
    · exact hC.sent c hc
    · exact hC.sent d hd
  waits := by
    intro d hd
    rcases mem_setConn hd with rfl | ⟨hd, _⟩
    · exact hC.waits c hc
    · exact hC.waits d hd
  seqNums := by
    intro d hd
    rcases mem_setConn hd with rfl | ⟨hd, _⟩
    · exact hC.seqNums c hc
    · exact hC.seqNums d hd
  ptrs := by
    intro d hd
    rcases mem_setConn hd with rfl | ⟨hd, _⟩
    · exact hC.ptrs c hc
    · exact hC.ptrs d hd
  timers := by
    intro e he ptr harg
    rcases List.mem_cons.mp he with rfl | he
    · cases harg
    · obtain ⟨d, hd, r, hr, hptr, hevent⟩ := hC.timers e he ptr harg
      by_cases heq : d.ptr = c.ptr
      · cases hl.eq_of_ptr hc hd heq
        exact ⟨_, setConn_self hc rfl, r, hr, hptr, hevent⟩
      · exact ⟨d, setConn_other hd heq, r, hr, hptr, hevent⟩
  completed := fun conn req status seqNum payload hmem =>
    Nat.lt_succ_of_lt (hC.completed conn req status seqNum payload hmem)
  given := by
    intro conn seqNum payload context hmem
    obtain ⟨hlt, hle, hown⟩ := hC.given conn seqNum payload context hmem
    refine ⟨Nat.lt_succ_of_lt hlt, hle, fun d hd => ?_⟩
    rcases mem_setConn hd with rfl | ⟨hd, _⟩
    · exact hown c hc
    · exact hown d hd
  cids := by
    intro d hd
    rcases mem_setConn hd with rfl | ⟨hd, _⟩
    · exact hC.cids c hc
    · exact hC.cids d hd
  accepts := hC.accepts

end Correlates

/-- The timers of a table that is shut down are gone. -/
theorem shutdownRequests_freed {P : Nat → EventArg → Prop} {base : EventBase} (h : base.All P)
    (rc : ReqControl) :
    (afIpcUtilShutdownRequests rc base).2.All
      (fun id arg => P id arg ∧ ∀ r ∈ rc.pendingRequests, r.event ≠ some id) := by
  unfold afIpcUtilShutdownRequests
  generalize rc.pendingRequests = reqs
  induction reqs generalizing base P with
  | nil => exact h.mono (fun id arg hp => ⟨hp, fun r hr => absurd hr List.not_mem_nil⟩)
  | cons r reqs ih =>
      refine (ih (h.eventFreeIf r.event)).mono ?_
      rintro id arg ⟨⟨hp, hne⟩, hrest⟩
      refine ⟨hp, fun r' hr' => ?_⟩
      rcases List.mem_cons.mp hr' with rfl | hr'
      · exact hne
      · exact hrest r' hr'

section Correlates

variable {h : Endpoint} {c : Conn}

/-- A connection goes with its table and its timers. -/
theorem Correlates.close (hC : Correlates h) (hl : Lives h) (hc : c ∈ h.conns) :
    Correlates ((h.without c.ptr).setBase
      (afIpcUtilShutdownRequests c.table (eventFreeIf c.event h.base)).2) := by
  have hnext : (afIpcUtilShutdownRequests c.table (eventFreeIf c.event h.base)).2.next =
      h.base.next := by
    rw [shutdownRequests_next, eventFreeIf_next]
  have hin : ∀ d ∈ (h.without c.ptr).conns, d ∈ h.conns := fun d hd => (mem_without.mp hd).1
  have hwithout : Correlates ((h.without c.ptr).setBase { events := [], next := h.base.next }) :=
    { rule := hC.rule
      seqIds := fun d hd => hC.seqIds d (hin d hd)
      unborn := hC.unborn
      range := fun d hd => hC.range d (hin d hd)
      sent := fun d hd => hC.sent d (hin d hd)
      waits := fun d hd => hC.waits d (hin d hd)
      seqNums := fun d hd => hC.seqNums d (hin d hd)
      ptrs := fun d hd => hC.ptrs d (hin d hd)
      timers := fun e he => absurd he List.not_mem_nil
      completed := hC.completed
      given := by
        intro conn seqNum payload context hmem
        obtain ⟨hlt, hle, hown⟩ := hC.given conn seqNum payload context hmem
        exact ⟨hlt, hle, fun d hd => hown d (hin d hd)⟩
      cids := fun d hd => hC.cids d (hin d hd)
      accepts := hC.accepts }
  refine hwithout.setBase (Nat.le_of_eq hnext.symm) ?_
  refine (shutdownRequests_freed (EventBase.All.eventFreeIf_weak hC.timers c.event) c.table).mono ?_
  rintro id arg ⟨howner, hfreed⟩ ptr harg
  obtain ⟨d, hd, r, hr, hptr, hevent⟩ := howner ptr harg
  refine ⟨d, mem_without.mpr ⟨hd, fun heq => ?_⟩, r, hr, hptr, hevent⟩
  cases hl.eq_of_ptr hc hd heq
  exact hfreed r hr hevent

/-- A request leaves its table with its timer, and its callback is called. -/
theorem Correlates.settle (hC : Correlates h) (hl : Lives h) (hc : c ∈ h.conns) {req : Request}
    (hmem : req ∈ c.table.pendingRequests) (base : EventBase) (hnext : base.next = h.base.next)
    (hbase : ∀ P : Nat → EventArg → Prop, h.base.All P → base.All P) (before : List Call)
    {calls : List Call} (hbefore : ∀ call ∈ before, call.neutral = true)
    (hcalls : calls = [] ∨ ∃ status seqNum payload,
      calls = [.responseCallback c.ptr req status seqNum payload] ∧
        Responded (h.trace ++ before) c.ptr req status payload) :
    Correlates (((h.setConn { c with table := c.table.without req.ptr }).setBase
      (eventFreeIf req.event base)).note (before ++ calls)) := by
  have hnext' : (eventFreeIf req.event base).next = h.base.next := by
    rw [eventFreeIf_next, hnext]
  have hfreed := EventBase.All.eventFreeIf (hbase _ hC.timers) req.event
  have hnoted : Correlates ((h.note before).setBase (eventFreeIf req.event base)) :=
    (hC.neutral before hbefore).setBase (Nat.le_of_eq hnext'.symm) (hfreed.mono fun _ _ hp => hp.1)
  have hsettled : Correlates (((h.note before).setBase (eventFreeIf req.event base)).setConn
      { c with table := c.table.without req.ptr }) :=
    hnoted.remove hl.ptrs hc hmem (hfreed.mono fun _ _ hp => hp.2)
  rw [← note_note]
  rcases hcalls with rfl | ⟨status, seqNum, payload, rfl, hrule⟩
  · exact hsettled.neutral [] (by simp)
  · refine hsettled.respond hrule (fun d hd hptr r hr => ?_) ?_
    · rcases mem_setConn hd with rfl | ⟨_, hne⟩
      · have hgone := (List.mem_filter.mp hr).2
        exact Ne.symm (by simpa using hgone)
      · exact absurd hptr hne
    · show req.ptr < (eventFreeIf req.event base).next
      rw [hnext']
      exact hl.requests c hc req hmem

/-- A frame is a response to a pending request. -/
theorem Correlates.complete (hC : Correlates h) (hl : Lives h) (hc : c ∈ h.conns) {f : Frame}
    {req : Request} {rc : ReqControl} {base : EventBase} {calls : List Call} (hold : ¬ f.IsNew)
    (htake : takeResponse (getSeqId f.seqNum) c.table h.base = (some req, rc, base))
    (hcalls : calls = [] ∨
      calls = [.responseCallback c.ptr req statusOk (getSeqId f.seqNum) f.payload]) :
    Correlates (((h.setConn { c with table := rc }).setBase base).note
      (.frame c.ptr f :: calls)) := by
  obtain ⟨hmem, hnum, _⟩ := takeResponse_some htake
  rw [← hnum, takeResponse_eq (hC.seqNums c hc) (hC.ptrs c hc) hmem (hC.range c hc req hmem).2,
    Prod.mk.injEq, Prod.mk.injEq] at htake
  obtain ⟨_, rfl, rfl⟩ := htake
  apply hC.settle hl hc hmem h.base rfl (fun _ hP => hP) [.frame c.ptr f] (by simp [Call.neutral])
  rcases hcalls with rfl | rfl
  · exact .inl rfl
  · refine .inr ⟨_, _, _, rfl, (hC.sent c hc req hmem).append, ?_, .inr ⟨rfl, ?_⟩⟩
    · intro req' status seqNum payload hcall
      rcases List.mem_append.mp hcall with hcall | hcall
      · exact hC.waits c hc req hmem req' status seqNum payload hcall
      · cases List.mem_singleton.mp hcall
    · exact ⟨h.trace, f, rfl, hold, hnum.symm, rfl⟩

/-- A timer of a table fires. -/
theorem Correlates.timeout (hC : Correlates h) (hl : Lives h) (hc : c ∈ h.conns)
    {event ptr : Nat} {req : Request} {rc : ReqControl} {base : EventBase} {calls : List Call}
    (hout : afIpcOnTimeout ptr c.table (timerFired event h.base) = .ok (req, rc, base))
    (hcalls : calls = [] ∨ calls = [.responseCallback c.ptr req statusTimeout 0 []]) :
    Correlates (((h.setConn { c with table := rc }).setBase base).note calls) := by
  obtain ⟨hmem, rfl⟩ := afIpcOnTimeout_some hout
  rw [afIpcOnTimeout_eq (hC.seqNums c hc) (hC.ptrs c hc) hmem, Except.ok.injEq, Prod.mk.injEq,
    Prod.mk.injEq] at hout
  obtain ⟨_, rfl, rfl⟩ := hout
  apply hC.settle hl hc hmem (timerFired event h.base) rfl (fun _ hP => hP.timerFired event) []
    (fun _ hcall => absurd hcall List.not_mem_nil)
  rw [List.append_nil]
  rcases hcalls with rfl | rfl
  · exact .inl rfl
  · exact .inr ⟨_, _, _, rfl, hC.sent c hc req hmem, hC.waits c hc req hmem, .inl rfl⟩

end Correlates

-- ============================================================================
-- Runs
-- ============================================================================

/-- Every step keeps the trace and adds to it. -/
theorem Endpoint.Step.trace {h h' : Endpoint} (hstep : h.Step h') :
    ∃ calls, h'.trace = h.trace ++ calls := by
  cases hstep with
  | bump => exact ⟨[], (List.append_nil _).symm⟩
  | added => exact ⟨[], (List.append_nil _).symm⟩
  | watch => exact ⟨[], (List.append_nil _).symm⟩
  | _ => exact ⟨_, rfl⟩

theorem Endpoint.Steps.trace {h h' : Endpoint} (hsteps : h.Steps h') :
    ∃ calls, h'.trace = h.trace ++ calls := by
  induction hsteps with
  | refl => exact ⟨[], (List.append_nil _).symm⟩
  | tail _ hstep ih =>
      obtain ⟨calls, hcalls⟩ := ih
      obtain ⟨more, hmore⟩ := hstep.trace
      exact ⟨calls ++ more, by rw [hmore, hcalls, List.append_assoc]⟩

/-- A record that has been given back stays given back. -/
theorem Endpoint.Steps.releases_le {h h' : Endpoint} (hsteps : h.Steps h') (p : Nat) :
    releasesOf p h.trace ≤ releasesOf p h'.trace := by
  obtain ⟨calls, hcalls⟩ := hsteps.trace
  rw [hcalls, releasesOf_append]
  exact Nat.le_add_right _ _

/-- A connection is live until its record is given back. -/
theorem Endpoint.Step.kept {h h' : Endpoint} (hstep : h.Step h') {p : Nat}
    (hp : p ∈ h.conns.map Conn.ptr) (hrel : releasesOf p h'.trace = 0) :
    p ∈ h'.conns.map Conn.ptr := by
  have hset : ∀ c : Conn, p ∈ (h.setConn c).conns.map Conn.ptr := by
    intro c
    rw [setConn_map Conn.ptr (fun d _ hptr => hptr)]
    exact hp
  cases hstep with
  | bump => exact hp
  | added => exact hp
  | note => exact hp
  | arrive => exact List.mem_cons_of_mem _ hp
  | refuse => exact hp
  | watch => exact hset _
  | send => exact hp
  | register => exact hset _
  | @close c calls hc hcalls hclose hrelease =>
      obtain ⟨d, hd, rfl⟩ := List.mem_map.mp hp
      refine List.mem_map_of_mem (mem_without.mpr ⟨hd, ?_⟩)
      intro hptr
      have hone : releasesOf d.ptr (h.trace ++ calls) = 0 := hrel
      rw [releasesOf_append, hptr, hrelease] at hone
      omega
  | skip => exact hp
  | deliver => exact hp
  | complete => exact hset _
  | timeout => exact hset _

theorem Endpoint.Steps.kept {h h' : Endpoint} (hsteps : h.Steps h') {p : Nat}
    (hp : p ∈ h.conns.map Conn.ptr) (hrel : releasesOf p h'.trace = 0) :
    p ∈ h'.conns.map Conn.ptr := by
  induction hsteps with
  | refl => exact hp
  | tail hsteps hstep ih =>
      have hle := Endpoint.Steps.releases_le (.single hstep) p
      exact hstep.kept (ih (by omega)) hrel

/-- **Every step within the bounds keeps the invariant.** -/
theorem Endpoint.Step.correlates {h h' : Endpoint} (hstep : h.Step h') (hl : Lives h)
    (hC : Correlates h) (hbound : Bounded h'.trace) : Correlates h' := by
  cases hstep with
  | bump hn => exact hC.setBase hn hC.timers
  | added id => exact hC.setBase (Nat.le_refl _) (EventBase.All.eventAdd hC.timers id)
  | note hc =>
      refine hC.neutral _ (fun call hcall => ?_)
      rw [List.mem_singleton.mp hcall]
      exact Call.neutral_of_inert hc
  | @arrive c fd hptr hevent hpending hlast hcid =>
      have haccepts := hbound.accepts
      rw [acceptsOf_append] at haccepts
      exact hC.arrive hptr hpending hlast hcid haccepts
  | @refuse fd cid hcid =>
      have haccepts := hbound.accepts
      rw [acceptsOf_append] at haccepts
      exact (hC.number fd hcid haccepts).1
  | watch hc hevent => exact hC.watch hl hc
  | @send c fd sentBy packet hc hsize hplain hroute =>
      refine hC.send ⟨hsize, fun heq p payload context hmem => ?_, fun hne => .inl (hplain hne)⟩
        hplain
      -- the number of a response holds the id of the connection it was given on
      obtain ⟨_, hle, hown⟩ := hC.given p packet.hdr.seqNum payload context hmem
      have hcid : c.cid = getClientId packet.hdr.seqNum := by
        rcases hroute heq with hcid | hzero
        · exact hcid
        · have hc0 := hC.cids c hc
          apply BitVec.eq_of_toNat_eq
          rw [hzero] at hle hc0
          have hz : (0 : BitVec 16).toNat = 0 := rfl
          omega
      exact (hown c hc hcid).symm
  | @register c fd packet callback context timeoutMs hc ht hsize hnum =>
      have hrequests := hbound.requests c.ptr
      have hisnew : isNewRequest packet.hdr.seqNum = true := by
        rw [hnum]
        exact isNewRequest_or_mask _
      have hone : requestsOn c.ptr [.sendmsg c.ptr fd (.request callback context) packet true] =
          1 := by
        simp [requestsOn, Call.isRequestOn, hisnew]
      have htrace : requestsOn c.ptr (h.trace ++
          [.sendmsg c.ptr fd (.request callback context) packet true]) < 2 ^ 15 := hrequests
      rw [requestsOn_append, hone] at htrace
      exact hC.register hl hc ht hsize hnum htrace
  | close hc hcalls hclose hrelease =>
      exact (hC.close hl hc).neutral _ (fun call hcall => Call.neutral_of_closing (hcalls call hcall))
  | skip hc hskip => exact hC.neutral _ (by simp [Call.neutral])
  | @deliver c f context hc hnew =>
      have hnoted := hC.neutral [.frame c.ptr f] (by simp [Call.neutral])
      have hlives : Lives (h.note [.frame c.ptr f]) := Endpoint.Step.lives (.skip hc (.inl hnew)) hl
      rw [← List.singleton_append, ← note_note]
      refine hnoted.receive hlives hc ⟨h.trace, f, c.cid, rfl, hnew, rfl, rfl⟩ ?_
      exact getClientId_deliveredSeqNum c.cid f.seqNum
  | complete hc hold htake hcalls => exact hC.complete hl hc hold htake hcalls
  | timeout hc hout hcalls => exact hC.timeout hl hc hout hcalls

/-- What holds in every run of an endpoint. -/
structure Sound (h : Endpoint) : Prop where
  lives : Lives h
  correlates : Bounded h.trace → Correlates h

/-- An endpoint that has just been opened: nothing has been observed, no connection
    has registered a request, and only the event of the endpoint itself is waited
    for. -/
structure Started (h : Endpoint) : Prop where
  trace : h.trace = []
  conns : ∀ c ∈ h.conns, c.ptr < h.base.next ∧ c.cid = 0 ∧
    c.table.pendingRequests = [] ∧ c.table.lastSeqId = 0
  ptrs : (h.conns.map Conn.ptr).Nodup
  cids : (h.conns.map Conn.cid).Nodup
  lastCid : h.lastCid = 0
  events : h.base.All (fun id arg => id < h.base.next ∧ arg = .server)

section Started

variable {h : Endpoint}

theorem Started.not_observed (hs : Started h) (call : Call) : call ∉ h.trace := by
  rw [hs.trace]
  exact List.not_mem_nil

theorem Started.not_pending (hs : Started h) {c : Conn} (hc : c ∈ h.conns) (r : Request) :
    r ∉ c.table.pendingRequests := by
  rw [(hs.conns c hc).2.2.1]
  exact List.not_mem_nil

theorem Started.lives (hs : Started h) : Lives h where
  ptrs := hs.ptrs
  cids := hs.cids
  below := fun c hc => (hs.conns c hc).1
  requests := fun c hc r hr => absurd hr (hs.not_pending hc r)
  events := fun e he => (hs.events e he).1
  watched := by
    intro e he ptr harg
    rw [(hs.events e he).2] at harg
    cases harg
  taken := fun conn f hmem => absurd hmem (hs.not_observed _)
  once := by
    intro p
    rw [hs.trace]
    exact ⟨Nat.zero_le 1, Nat.zero_le 1⟩
  still := by
    intro p _
    rw [hs.trace]
    exact ⟨rfl, rfl⟩

theorem Started.correlates (hs : Started h) : Correlates h where
  rule := by
    rw [hs.trace]
    exact justified_nil
  seqIds := by
    intro c hc
    rw [(hs.conns c hc).2.2.2, hs.trace]
    rfl
  unborn := by
    intro p _
    rw [hs.trace]
    rfl
  range := fun c hc r hr => absurd hr (hs.not_pending hc r)
  sent := fun c hc r hr => absurd hr (hs.not_pending hc r)
  waits := fun c hc r hr => absurd hr (hs.not_pending hc r)
  seqNums := by
    intro c hc
    rw [(hs.conns c hc).2.2.1]
    exact List.nodup_nil
  ptrs := by
    intro c hc
    rw [(hs.conns c hc).2.2.1]
    exact List.nodup_nil
  timers := by
    intro e he ptr harg
    rw [(hs.events e he).2] at harg
    cases harg
  completed := fun conn req status seqNum payload hmem => absurd hmem (hs.not_observed _)
  given := fun conn seqNum payload context hmem => absurd hmem (hs.not_observed _)
  cids := by
    intro c hc
    rw [(hs.conns c hc).2.1]
    exact Nat.zero_le _
  accepts := by
    rw [hs.lastCid]
    exact Nat.zero_le _

theorem Started.sound (hs : Started h) : Sound h := ⟨hs.lives, fun _ => hs.correlates⟩

end Started

/-- **Every run keeps it.** -/
theorem Endpoint.Steps.sound {h h' : Endpoint} (hsteps : h.Steps h') (hs : Sound h) : Sound h' := by
  induction hsteps with
  | refl => exact hs
  | tail _ hstep ih =>
      refine ⟨hstep.lives ih.lives, fun hbound => ?_⟩
      obtain ⟨calls, htrace⟩ := hstep.trace
      have hpast := hbound
      rw [htrace] at hpast
      exact hstep.correlates ih.lives (ih.correlates hpast.past) hbound

end AfIpc.Ipc
