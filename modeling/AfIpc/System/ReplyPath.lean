/-
  AfIpc.System.ReplyPath

  Whether a request that has been accepted can be answered.  The number of a request
  is how its response is told from the others, and `af_ipc_send` gives it one only
  if it has a timeout.  A timeout of 0, which the send functions document as no
  timeout, makes it go out with the number 0, as an unsolicited message does: it
  is not pending, and nothing the peer sends calls its callback.
-/

import AfIpc.Ipc.Pending
import AfIpc.System.Exchange
import AfIpc.System.Framing

namespace AfIpc.System

open AfIpc.Lib AfIpc.Ipc

-- ============================================================================
-- Requests and answers
-- ============================================================================

/-- A request to the connection at the address: the endpoint got from opening to its
    state before the call, inside a callback or not, and the call returns 0. -/
inductive Requested (callback : Option Callback) (context : Context) (timeoutMs : Int) :
    Nat → Endpoint → Endpoint → Prop
  | client {env : Ipcc.OpenEnv} {base : EventBase} {name : CString}
      {receiveCallback closeCallback : Option Callback} {receiveContext : Context}
      {w₀ w w' : Ipcc.World} {txBuffer : List Byte} {txBufferSize : Int} {sendEnv : SendEnv}
      {errno : Option Errno} (hbase : base.events = [])
      (hopen : Ipcc.afIpccOpenServer env base name receiveCallback receiveContext closeCallback =
        .ok (some w₀))
      (hsteps : w₀.endpoint.Steps w.endpoint)
      (hcall : Ipcc.afIpccSendRequest txBuffer txBufferSize callback context timeoutMs sendEnv w =
        .ok (⟨0, errno⟩, w')) :
      Requested callback context timeoutMs 0 w.endpoint w'.endpoint
  | server {env : Ipcs.OpenEnv} {base : EventBase}
      {acceptCallback receiveCallback closeCallback : Option Callback} {acceptContext : Context}
      {w₀ w w' : Ipcs.World} {clientId : BitVec 16} {c : Ipcs.Client} {txBuffer : List Byte}
      {txBufferSize : Int} {sendEnv : SendEnv} {errno : Option Errno} (hbase : Ipcs.BareBase base)
      (hopen : Ipcs.afIpcsOpen env base acceptCallback acceptContext receiveCallback closeCallback =
        some w₀)
      (hsteps : w₀.endpoint.Steps w.endpoint) (hfind : Ipcs.findClientByCid w clientId = some c)
      (hcall : Ipcs.afIpcsSendRequest clientId txBuffer txBufferSize callback context timeoutMs
        sendEnv w = .ok (⟨0, errno⟩, w')) :
      Requested callback context timeoutMs c.ptr w.endpoint w'.endpoint

/-- The frame is an answer to a message that was sent with the number: a response
    that `af_ipc_send` accepts, to the number that the peer's receive callback is
    given, whatever client id it holds. -/
def Answers (num : BitVec 32) (f : Frame) : Prop :=
  ∃ (cid : BitVec 16) (m : Message), m.Accepted ∧ m.rc = none ∧ m.timeoutMs = 0 ∧
    m.seqNum = deliveredSeqNum cid (getSeqId num) ∧ m.frame = f

/-- The request of the step from `h` to `h'` has a reply path: it is pending with a
    number other than 0, which the frame carries with the new-request bit; and in
    any continuation in which it is answered, before it times out and before the
    connection ends, its callback is called with the answer, once.  A continuation
    is any steps of the endpoint, such as the events and calls of either side come
    down to. -/
structure ReplyPath (p : Nat) (callback : Option Callback) (context : Context)
    (h h' : Endpoint) : Prop where
  path : ∃ r fd packet,
    h'.trace = h.trace ++ [.sendmsg p fd (.request callback context) packet true] ∧
    (∃ c ∈ h'.conns, c.ptr = p ∧ r ∈ c.table.pendingRequests) ∧
    r.responseCallback = callback ∧ r.responseContext = context ∧ r.seqNum ≠ 0 ∧
    packet.hdr.seqNum = r.seqNum ||| newRequestMask ∧
    ∀ h'', h'.Steps h'' → requestsOn p h''.trace < 2 ^ 15 →
      ∀ f, Answers packet.hdr.seqNum f → ∀ before after,
        h''.trace = h'.trace ++ (before ++ .frame p f :: after) →
        (∀ d ∈ before, ¬ d.settles p r) →
        h''.trace.filter (Call.respondsTo p r) =
          [.responseCallback p r statusOk r.seqNum f.payload]

section Answers

variable {f : Frame} {id : BitVec 32}

/-- An answer has the number of its request, and is no new request. -/
theorem Answers.spec (h : Answers (id ||| newRequestMask) f) (hid : id ≠ 0)
    (hlt : id.toNat < 2 ^ 15) : getSeqId f.seqNum = id ∧ ¬ f.IsNew := by
  obtain ⟨cid, m, haccepted, hrc, ht, hnum, rfl⟩ := h
  have hseq : m.frame.seqNum = deliveredSeqNum cid (getSeqId (id ||| newRequestMask)) := by
    have hret := haccepted.ret
    rw [Message.send, afIpcSend_ret] at hret
    have hs : sendSucceeds m.rc m.txBuffer.length m.timeoutMs m.env = true := by
      by_contra hfail
      rw [if_neg hfail] at hret
      cases hret
    rw [Message.frame, Message.send, afIpcSend_plain hs (Int.le_of_eq ht)]
    exact hnum
  have hget : getSeqId m.frame.seqNum = id := by
    rw [hseq]
    exact getSeqId_delivered_request hlt cid
  refine ⟨hget, ?_⟩
  rintro (hzero | hnew)
  · exact hid (hget.symm.trans hzero)
  · rw [isNewRequest_getSeqId, hseq, ← isNewRequest_eq, isNewRequest_deliveredSeqNum] at hnew
    cases hnew

end Answers

-- ============================================================================
-- Sending
-- ============================================================================

section Sending

variable {h₀ h : Endpoint} {c : Conn} {callback : Callback} {context : Context}
  {timeoutMs : Int} {txBuffer : List Byte} {txBufferSize : Int} {env : SendEnv} {r : SendResult}

/-- **A request that is sent has a reply path** exactly if it has a timeout. -/
theorem replyPath_of_sent (hl₀ : Lives h₀) (hk₀ : ∀ p, Keyed p h₀) (hsteps : h₀.Steps h)
    (hc : c ∈ h.conns) (fd : Int) (hs : sendSucceeds (some c.table) txBufferSize timeoutMs env = true)
    (hr : r = afIpcSend (some c.table) h.base 0 txBuffer txBufferSize (some callback) context
      timeoutMs env) :
    ReplyPath c.ptr (some callback) context h
        (((h.setConn { c with table := r.rc.getD c.table }).setBase r.base).note
          (sendCalls c.ptr fd (.request (some callback) context) r.packet env.sendmsg)) ↔
      0 < timeoutMs := by
  have hl := hsteps.lives hl₀
  obtain ⟨-, hmsg⟩ := sendSucceeds_fits hs
  have hstep := afIpcSend_step fd hl hc (.inr rfl) (fun _ => rfl) (fun heq => by cases heq)
    (fun _ => rfl) hs hr
  rw [hmsg] at hstep ⊢
  refine ⟨?_, ?_⟩
  · intro hpath
    by_contra hneg
    obtain ⟨r', fd', packet, htrace, -, -, -, -, hnum, -⟩ := hpath.path
    rw [afIpcSend_plain hs (by omega)] at hr
    subst hr
    have hsent := List.append_cancel_left htrace
    have hzero : packet.hdr.seqNum = 0 := by
      cases hsent
      rfl
    have hnew := isNewRequest_or_mask r'.seqNum
    rw [← hnum, hzero] at hnew
    exact absurd hnew (by decide)
  · intro ht
    rw [afIpcSend_register hs ht (hl.fresh hc)] at hr
    subst hr
    have hmem : newRequest c.table h.base (some callback) context timeoutMs ∈
        (registerIn c.table h.base (some callback) context timeoutMs).pendingRequests :=
      List.mem_cons_self
    have hpos : 0 < (newSeqNum c.table).toNat := by
      rw [newSeqNum_toNat]
      exact nextSeqId_pos _
    have hlt : (newSeqNum c.table).toNat < 2 ^ 15 := by
      rw [newSeqNum_toNat]
      exact nextSeqId_lt _
    have hne : newSeqNum c.table ≠ 0 := by
      intro hzero
      rw [hzero] at hpos
      exact Nat.lt_irrefl 0 hpos
    refine ⟨⟨newRequest c.table h.base (some callback) context timeoutMs, fd, _, rfl,
      ⟨_, setConn_self hc rfl, rfl, hmem⟩, rfl, rfl, hne, rfl, ?_⟩⟩
    intro h'' hafter hbound f hanswers before after htrace hbefore
    obtain ⟨hnum, hold⟩ := hanswers.spec hne hlt
    have hl' := hstep.lives hl
    have htable := table_of_mem hl' (setConn_self hc rfl)
    obtain ⟨calls, hcalls⟩ := hafter.trace
    have hpast := hbound
    rw [hcalls, requestsOn_append] at hpast
    have hk' := Endpoint.Steps.keyed (hsteps.tail hstep) hl₀ (hk₀ c.ptr) (by omega)
    exact hafter.answered hl' hk' htable hmem (by simp [newRequest]) hbound htrace hbefore hold hnum

end Sending

section Parties

variable {callback : Callback} {context : Context} {timeoutMs : Int} {txBuffer : List Byte}
  {txBufferSize : Int} {sendEnv : SendEnv} {errno : Option Errno}

/-- A request that the client accepts has been sent. -/
theorem client_sent {w w' : Ipcc.World}
    (hcall : Ipcc.afIpccSendRequest txBuffer txBufferSize (some callback) context timeoutMs sendEnv
      w = .ok (⟨0, errno⟩, w')) :
    ∃ s r, w.server = some s ∧
      r = afIpcSend (some s.reqControl) w.base 0 txBuffer txBufferSize (some callback) context
        timeoutMs sendEnv ∧
      sendSucceeds (some s.reqControl) txBufferSize timeoutMs sendEnv = true ∧
      w'.endpoint = ((w.endpoint.setConn { s.conn with table := r.rc.getD s.conn.table }).setBase
        r.base).note (sendCalls 0 s.fd (.request (some callback) context) r.packet
          sendEnv.sendmsg) := by
  cases hserver : w.server with
  | none =>
      simp only [Ipcc.afIpccSendRequest, Ipcc.World.deref, hserver, bind, Except.bind] at hcall
      cases hcall
  | some s =>
      simp only [Ipcc.afIpccSendRequest, Ipcc.deref_eq hserver, bind, Except.bind] at hcall
      by_cases hfd : s.fd < 0
      · rw [if_pos hfd] at hcall
        cases hcall
      rw [if_neg hfd] at hcall
      generalize hr : afIpcSend (some s.reqControl) w.base 0 txBuffer txBufferSize (some callback)
        context timeoutMs sendEnv = r at hcall
      have hret := @afIpcSend_ret (some s.reqControl) w.base 0 txBuffer txBufferSize (some callback)
        context timeoutMs sendEnv
      rw [hr] at hret
      simp only [Ipcc.sendOrClose] at hcall
      by_cases hfail : r.ret < 0
      · rw [if_pos hfail] at hcall
        obtain ⟨v, -, hv⟩ := bind_eq_ok.mp hcall
        have hzero : r.ret = 0 := congrArg (fun out => out.1.ret) (Except.ok.inj hv)
        omega
      rw [if_neg hfail] at hcall
      have hs : sendSucceeds (some s.reqControl) txBufferSize timeoutMs sendEnv = true := by
        by_contra hno
        rw [if_neg hno] at hret
        omega
      obtain rfl : _ = w' := congrArg Prod.snd (Except.ok.inj hcall)
      exact ⟨s, r, rfl, hr.symm, hs, Ipcc.sent_endpoint hserver _ r sendEnv.sendmsg⟩

/-- A request that the server accepts has been sent to the client with the id. -/
theorem server_sent {w w' : Ipcs.World} {clientId : BitVec 16} {c : Ipcs.Client}
    (hfind : Ipcs.findClientByCid w clientId = some c)
    (hcall : Ipcs.afIpcsSendRequest clientId txBuffer txBufferSize (some callback) context timeoutMs
      sendEnv w = .ok (⟨0, errno⟩, w')) :
    ∃ r, r = afIpcSend (some c.reqControl) w.base 0 txBuffer txBufferSize (some callback) context
        timeoutMs sendEnv ∧
      sendSucceeds (some c.reqControl) txBufferSize timeoutMs sendEnv = true ∧
      w'.endpoint = ((w.endpoint.setConn { c.conn with table := r.rc.getD c.conn.table }).setBase
        r.base).note (sendCalls c.ptr c.clientFd (.request (some callback) context) r.packet
          sendEnv.sendmsg) := by
  simp only [Ipcs.afIpcsSendRequest] at hcall
  by_cases hzero : clientId = 0
  · rw [if_pos hzero] at hcall
    cases hcall
  rw [if_neg hzero] at hcall
  obtain ⟨v, hlock, hrest⟩ := bind_eq_ok.mp hcall
  obtain rfl : w.locked = v := by
    rw [Ipcs.World.lock] at hlock
    split_ifs at hlock
    exact Except.ok.inj hlock
  have hlocked : Ipcs.findClientByCid w.locked clientId = some c := hfind
  simp only [hlocked] at hrest
  by_cases hfd : c.clientFd ≥ 0
  · rw [if_pos hfd] at hrest
    have hbase : w.locked.base = w.base := rfl
    rw [hbase] at hrest
    generalize hr : afIpcSend (some c.reqControl) w.base 0 txBuffer txBufferSize (some callback)
      context timeoutMs sendEnv = r at hrest
    have hret := @afIpcSend_ret (some c.reqControl) w.base 0 txBuffer txBufferSize (some callback)
      context timeoutMs sendEnv
    rw [hr] at hret
    by_cases hfail : r.ret < 0
    · rw [if_pos hfail] at hrest
      obtain ⟨u, -, hu⟩ := bind_eq_ok.mp hrest
      have hzero : r.ret = 0 := congrArg (fun out => out.1.ret) (Except.ok.inj hu)
      omega
    rw [if_neg hfail] at hrest
    have hs : sendSucceeds (some c.reqControl) txBufferSize timeoutMs sendEnv = true := by
      by_contra hno
      rw [if_neg hno] at hret
      omega
    have hw' : (w.locked.sent c (.request (some callback) context) r sendEnv.sendmsg).unlock = w' :=
      congrArg Prod.snd (Except.ok.inj hrest)
    refine ⟨r, rfl, hs, ?_⟩
    rw [← hw']
    exact Ipcs.sent_endpoint w.locked c _ r sendEnv.sendmsg
  · rw [if_neg hfd] at hrest
    cases hrest

end Parties

/-- **An accepted request has a reply path** exactly if its timeout is not 0. -/
theorem replyPath_iff {callback : Callback} {context : Context} {timeoutMs : Int} {p : Nat}
    {h h' : Endpoint} (hrequest : Requested (some callback) context timeoutMs p h h') :
    ReplyPath p (some callback) context h h' ↔ 0 < timeoutMs := by
  cases hrequest with
  | @client env base name receiveCallback closeCallback receiveContext w₀ w w' txBuffer
      txBufferSize sendEnv errno hbase hopen hsteps hcall =>
      obtain ⟨s, r, hserver, hr, hs, hw'⟩ := client_sent hcall
      have hstarted := Ipcc.started_of_open hbase hopen
      rw [hw']
      exact replyPath_of_sent hstarted.lives hstarted.keyed hsteps (Ipcc.conn_mem hserver) s.fd hs hr
  | @server env base acceptCallback receiveCallback closeCallback acceptContext w₀ w w' clientId c
      txBuffer txBufferSize sendEnv errno hbase hopen hsteps hfind hcall =>
      obtain ⟨r, hr, hs, hw'⟩ := server_sent hfind hcall
      have hstarted := Ipcs.started_of_open hbase hopen
      rw [hw']
      exact replyPath_of_sent hstarted.lives hstarted.keyed hsteps
        (Ipcs.conn_mem (Ipcs.findClientByCid_mem hfind).1) c.clientFd hs hr

/-- The client of `openClient` has sent a request with a timeout of a second. -/
def requestingClient : Ipcc.World where
  server := some ⟨3, 0, some 1, some 2, 0, some 0, ⟨1, true, [⟨1, 1, some 2, 1000, some 9, 0⟩]⟩⟩
  base := ⟨[⟨2, .request 1, true⟩, ⟨0, .server, true⟩], 3⟩
  script := []
  trace := [requestSent]

theorem requestingClient_sent :
    Ipcc.afIpccSendRequest [7] 1 (some 9) 0 1000 .good Ipcc.openClient =
      .ok (⟨0, none⟩, requestingClient) := rfl

theorem replyPath_iff_second :
    ReplyPath 0 (some 9) 0 Ipcc.openClient.endpoint requestingClient.endpoint ↔ (0 : Int) < 1000 :=
  replyPath_iff (.client rfl Ipcc.openClient_opens .refl requestingClient_sent)

/-- The client sends it without a timeout: it goes out with the number 0, is not
    pending, and has no reply path. -/
theorem unnumbered_request :
    ∃ w' s', Ipcc.afIpccSendRequest [7] 1 (some 9) 0 0 .good Ipcc.openClient =
        .ok (⟨0, none⟩, w') ∧
      w'.trace = [.sendmsg 0 3 (.request (some 9) 0) ⟨⟨0, 9⟩, 1, [7]⟩ true] ∧
      w'.server = some s' ∧ s'.reqControl.pendingRequests = [] ∧
      ¬ ReplyPath 0 (some 9) 0 Ipcc.openClient.endpoint w'.endpoint := by
  refine ⟨_, _, rfl, rfl, rfl, rfl, fun hpath => ?_⟩
  obtain ⟨r, fd, packet, -, ⟨c, hc, -, hmem⟩, -⟩ := hpath.path
  rw [List.mem_singleton.mp hc] at hmem
  exact absurd hmem List.not_mem_nil

end AfIpc.System
