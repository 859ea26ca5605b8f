/-
  AfIpc.System.Exchange

  A server and the clients at the other ends of its connections, each a process of
  its own.  They share nothing but the two channels of every connection, which
  carry frames in order and lose none: what a party has taken from a connection is
  the first part of what the party at the other end has sent on it, and the rest
  is in flight.  A party's event may overlap with those of its peers, so that this
  is required where the parties have got to, not of the state an event begins in.

  A response callback is followed back from one party to the other: to the frame
  just taken, the response that was sent, the message it was sent in answer to,
  and the request that this message was.
-/

import AfIpc.Ipcs.Runs
import AfIpc.Ipcc.Runs

namespace AfIpc.System

open AfIpc.Lib AfIpc.Ipc

-- ============================================================================
-- The system
-- ============================================================================

/-- A server, and for every address the client that the connection with this
    record is, or would be, to. -/
structure Sys where
  server : Ipcs.World
  client : Nat → Ipcc.World

/-- One party handles an event. -/
inductive Sys.Step : Sys → Sys → Prop
  | server {s : Sys} {e : Ipcs.ServerEvent} {w : Ipcs.World}
      (hstep : Ipcs.serverStep s.server e = .ok w) : Step s { s with server := w }
  | client {s : Sys} (p : Nat) {e : Ipcc.ClientEvent} {w : Ipcc.World}
      (hstep : Ipcc.clientStep (s.client p) e = .ok w) :
      Step s { s with client := Function.update s.client p w }

/-- Every party has just been opened. -/
structure Sys.Opened (s : Sys) : Prop where
  server : ∃ env base acceptCallback acceptContext receiveCallback closeCallback,
    Ipcs.BareBase base ∧ Ipcs.afIpcsOpen env base acceptCallback acceptContext receiveCallback
      closeCallback = some s.server
  client : ∀ p, ∃ env base name receiveCallback receiveContext closeCallback,
    base.events = [] ∧ Ipcc.afIpccOpenServer env base name receiveCallback receiveContext
      closeCallback = .ok (some (s.client p))

/-- A state that the system can get to. -/
def Sys.Reachable (s : Sys) : Prop := ∃ s₀ : Sys, s₀.Opened ∧ Relation.ReflTransGen Sys.Step s₀ s

/-- The channels: each side has taken the first part of what the other has sent, frame by
    frame.  This is about whole frames, as the receive loop takes them out of what `recv`
    returns; a stream that is cut inside a frame, or ends in a bare header, loses it. -/
structure Sys.Fifo (s : Sys) : Prop where
  toServer : ∀ p, takenOn p s.server.trace <+: sentOn 0 (s.client p).trace
  toClient : ∀ p, takenOn 0 (s.client p).trace <+: sentOn p s.server.trace

/-- The rule for an application: it responds with the number of a request, which
    its receive callback was given. -/
def RespondsToRequests : List Call → Prop :=
  Justified (fun past c => ∀ conn fd packet, c = .sendmsg conn fd .response packet true →
    afIpcSeqNumIsRequest packet.hdr.seqNum = true ∧
      ∃ p payload context, .receiveCallback p packet.hdr.seqNum payload context ∈ past)

/-- What is assumed of a run: the channels, the applications and the bounds. -/
structure Sys.Regular (s : Sys) : Prop where
  fifo : s.Fifo
  server : RespondsToRequests s.server.trace
  client : ∀ p, RespondsToRequests (s.client p).trace
  serverBounded : Bounded s.server.trace
  clientBounded : ∀ p, Bounded (s.client p).trace

theorem Sys.Reachable.sound {s : Sys} (h : s.Reachable) :
    Sound s.server.endpoint ∧ ∀ p, Sound (s.client p).endpoint := by
  obtain ⟨s₀, hopened, hsteps⟩ := h
  have hinv : Ipcs.Idle s.server ∧ ∀ p, Ipcc.Quiet (s.client p) ∧ Ipcc.Sane (s.client p) := by
    induction hsteps with
    | refl =>
        obtain ⟨env, base, acb, actx, rcb, ccb, hbare, hopen⟩ := hopened.server
        refine ⟨Ipcs.idle_of_open hbare hopen, fun p => ?_⟩
        obtain ⟨env, base, name, rcb, rctx, ccb, hbare, hopen⟩ := hopened.client p
        exact Ipcc.sane_of_open hbare hopen
    | tail _ hstep ih =>
        cases hstep with
        | server hstep => exact ⟨((Ipcs.serverStep_spec ih.1 _).of_ok hstep).1, ih.2⟩
        | client p hstep =>
            obtain ⟨hq, hw⟩ := ih.2 p
            have hstepped := (Ipcc.clientStep_spec hq hw _).of_ok hstep
            refine ⟨ih.1, fun q => ?_⟩
            by_cases hqp : q = p
            · subst hqp
              dsimp only
              rw [Function.update_self]
              exact ⟨hstepped.quiet, hstepped.sane⟩
            · dsimp only
              rw [Function.update_of_ne hqp]
              exact ih.2 q
  exact ⟨hinv.1.sound, fun p => (hinv.2 p).2.sound⟩

-- ============================================================================
-- What a trace tells
-- ============================================================================

section Traces

variable {conn : Nat} {t : List Call} {f : Frame}

theorem mem_takenOn (h : .frame conn f ∈ t) : f ∈ takenOn conn t := by
  have htaken : (conn, f) ∈ takenOf t := List.mem_filterMap.mpr ⟨_, h, rfl⟩
  exact List.mem_filterMap.mpr ⟨(conn, f), htaken, if_pos rfl⟩

theorem of_mem_sentOn (h : f ∈ sentOn conn t) :
    ∃ fd sentBy packet, .sendmsg conn fd sentBy packet true ∈ t ∧ packet.frame = f := by
  obtain ⟨c, hc, hsome⟩ := List.mem_filterMap.mp h
  cases c with
  | sendmsg p fd sentBy packet ok =>
      cases ok with
      | true =>
          dsimp only at hsome
          split_ifs at hsome with hp
          subst hp
          exact ⟨fd, sentBy, packet, hc, Option.some.inj hsome⟩
      | false => cases hsome
  | _ => cases hsome

/-- A registered request that has been sent counts. -/
theorem requestsOn_past {fd : Int} {callback : Option Callback} {context : Context}
    {packet : Packet} {t₁ t₂ : List Call} (hnew : isNewRequest packet.hdr.seqNum = true) :
    requestsOn conn t₁ + 1 ≤
      requestsOn conn (t₁ ++ .sendmsg conn fd (.request callback context) packet true :: t₂) := by
  have hone : requestsOn conn [.sendmsg conn fd (.request callback context) packet true] = 1 := by
    simp [requestsOn, Call.isRequestOn, hnew]
  rw [List.append_cons, requestsOn_append, requestsOn_append, hone]
  omega

/-- The number of a request that has been sent. -/
theorem request_number (hrule : Justified Rule t) {fd : Int} {callback : Option Callback}
    {context : Context} {packet : Packet} {t₁ t₂ : List Call}
    (ht : t = t₁ ++ .sendmsg conn fd (.request callback context) packet true :: t₂)
    (hnew : isNewRequest packet.hdr.seqNum = true) :
    ∃ id : BitVec 32, packet.hdr.seqNum = id ||| newRequestMask ∧ id.toNat < 2 ^ 15 ∧
      id.toNat = requestsOn conn t₁ + 1 := by
  have hsent : Sent t₁ conn (.request callback context) packet := hrule _ _ _ ht
  rcases hsent.plain (fun heq => by cases heq) with hzero | ⟨_, _, id, _, hnum, hcount, hlt⟩
  · rw [hzero] at hnew
    cases hnew
  · exact ⟨id, hnum, hlt, hcount⟩

/-- **No two requests** of a connection have one number. -/
theorem request_unique (hrule : Justified Rule t) {fd fd' : Int}
    {callback callback' : Option Callback} {context context' : Context} {packet packet' : Packet}
    (h : .sendmsg conn fd (.request callback context) packet true ∈ t)
    (h' : .sendmsg conn fd' (.request callback' context') packet' true ∈ t)
    (hnew : isNewRequest packet.hdr.seqNum = true)
    (hnum : packet'.hdr.seqNum = packet.hdr.seqNum) :
    Call.sendmsg conn fd' (.request callback' context') packet' true =
      .sendmsg conn fd (.request callback context) packet true := by
  have hnew' : isNewRequest packet'.hdr.seqNum = true := by rw [hnum]; exact hnew
  obtain ⟨t₁, t₂, ht⟩ := List.append_of_mem h
  obtain ⟨id, hid, hlt, hcount⟩ := request_number hrule ht hnew
  -- equal numbers count equally many requests before
  have hsame : ∀ u₁ u₂ : List Call,
      t = u₁ ++ .sendmsg conn fd' (.request callback' context') packet' true :: u₂ →
      requestsOn conn u₁ = requestsOn conn t₁ := by
    intro u₁ u₂ hu
    obtain ⟨id', hid', hlt', hcount'⟩ := request_number hrule hu hnew'
    have heq : id' = id := or_mask_inj hlt' hlt (by rw [← hid', ← hid, hnum])
    rw [heq] at hcount'
    omega
  rw [ht] at h'
  rcases List.mem_append.mp h' with hbefore | hrest
  · obtain ⟨u₁, u₂, hu⟩ := List.append_of_mem hbefore
    have hpast := @requestsOn_past conn fd' callback' context' packet' u₁ u₂ hnew'
    rw [← hu] at hpast
    have heq := hsame u₁ (u₂ ++ .sendmsg conn fd (.request callback context) packet true :: t₂) (by
      rw [ht, hu, List.append_assoc, List.cons_append])
    omega
  · rcases List.mem_cons.mp hrest with heq | hafter
    · exact heq
    · obtain ⟨u₁, u₂, hu⟩ := List.append_of_mem hafter
      have hpast := @requestsOn_past conn fd callback context packet t₁ u₁ hnew
      have heq := hsame (t₁ ++ .sendmsg conn fd (.request callback context) packet true :: u₁) u₂ (by
        rw [ht, hu, List.append_assoc, List.cons_append])
      omega

end Traces

-- ============================================================================
-- Response callbacks
-- ============================================================================

/-- What a response callback on the connection `conn` goes back to, given the trace
    `own` before it and that of the peer, where the connection is `peer`: the
    request that was sent on `conn` with this callback, and no other; and a
    response with the payload, which the peer sent to the number that its receive
    callback was given for this request, and which is the frame just taken. -/
structure AnswersRequest (conn peer : Nat) (own other : List Call) (req : Request)
    (payload : List Byte) : Prop where
  answers : ∃ fd packet fd' packet' past before after context,
    -- the request
    .sendmsg conn fd (.request req.responseCallback req.responseContext) packet true ∈ own ∧
    packet.hdr.seqNum = req.seqNum ||| newRequestMask ∧
    (∀ fd₂ callback context packet₂,
      .sendmsg conn fd₂ (.request callback context) packet₂ true ∈ own →
      packet₂.hdr.seqNum = packet.hdr.seqNum →
      fd₂ = fd ∧ callback = req.responseCallback ∧ context = req.responseContext ∧
        packet₂ = packet) ∧
    -- the response
    other = before ++ .sendmsg peer fd' .response packet' true :: after ∧
    packet'.frame.payload = payload ∧
    [.frame peer packet.frame,
      .receiveCallback peer packet'.hdr.seqNum packet.frame.payload context] <:+: before ∧
    own = past ++ [.frame conn packet'.frame] ∧ ¬ packet'.frame.IsNew

/-- The request whose callback on the connection the call is. -/
def calledOn (conn : Nat) : Call → Option Nat
  | .responseCallback p req _ _ _ => if p = conn then some req.ptr else none
  | _ => none

/-- The response callbacks on a connection are as they should be. -/
structure Correlated (conn peer : Nat) (own other : List Call) : Prop where
  /-- With status 0 for the request alone, and with what the peer answered to it. -/
  answered : ∀ t₁ t₂ req seqNum payload,
    own = t₁ ++ .responseCallback conn req statusOk seqNum payload :: t₂ →
      AnswersRequest conn peer t₁ other req payload
  /-- A response or a timeout. -/
  status : ∀ req status seqNum payload, .responseCallback conn req status seqNum payload ∈ own →
    status = statusOk ∨ status = statusTimeout
  /-- And one of the two, once. -/
  once : (own.filterMap (calledOn conn)).Nodup

section Correlated

variable {conn peer : Nat} {own other : List Call}

/-- A frame that is no new request was sent as a response. -/
theorem response_of_old {sentBy : SentBy} {packet : Packet} {past : List Call}
    (hsent : Sent past conn sentBy packet) (hold : ¬ packet.frame.IsNew) : sentBy = .response := by
  by_contra hne
  apply hold
  show getSeqId packet.hdr.seqNum = 0 ∨ isNewRequest (getSeqId packet.hdr.seqNum) = true
  rcases hsent.plain hne with hzero | ⟨_, _, id, _, hnum, _, hlt⟩
  · rw [hzero]
    exact Or.inl rfl
  · rw [hnum, getSeqId_or_mask hlt]
    exact Or.inr (isNewRequest_or_mask id)

/-- The number that a request is delivered with. -/
theorem getSeqId_delivered_request {id : BitVec 32} (hlt : id.toNat < 2 ^ 15)
    (cid : BitVec 16) :
    getSeqId (deliveredSeqNum cid (getSeqId (id ||| newRequestMask))) = id := by
  rw [getSeqId_deliveredSeqNum, getSeqId_or_mask hlt, getSeqId_or_mask hlt]
  apply BitVec.eq_of_getLsbD_eq
  intro i hi
  rw [BitVec.getLsbD_and, BitVec.getLsbD_or, BitVec.getLsbD_not, getLsbD_newRequestMask]
  by_cases h15 : i = 15
  · rw [h15, getLsbD_of_lt hlt (Nat.le_refl 15)]
    simp
  · simp [h15, hi]

/-- A message that the peer's application answers was sent as a request. -/
theorem request_of_answered {sentBy : SentBy} {packet : Packet} {past : List Call} {cid : BitVec 16}
    (hsent : Sent past conn sentBy packet)
    (happ : sentBy = .response → isNewRequest packet.hdr.seqNum = false)
    (hnew : packet.frame.IsNew)
    (hrequest : afIpcSeqNumIsRequest (deliveredSeqNum cid (getSeqId packet.hdr.seqNum)) = true) :
    ∃ callback context id, sentBy = .request callback context ∧
      packet.hdr.seqNum = id ||| newRequestMask ∧ id.toNat < 2 ^ 15 := by
  have hid : getSeqId packet.hdr.seqNum ≠ 0 := by
    intro hzero
    rw [hzero, afIpcSeqNumIsRequest, getSeqId_deliveredSeqNum] at hrequest
    revert hrequest
    decide
  by_cases hresponse : sentBy = .response
  · have hold := happ hresponse
    rcases (hnew : getSeqId packet.hdr.seqNum = 0 ∨ _) with hzero | hbit
    · exact absurd hzero hid
    · rw [Packet.frame, isNewRequest_getSeqId, ← isNewRequest_eq, hold] at hbit
      cases hbit
  · rcases hsent.plain hresponse with hzero | ⟨callback, context, id, hreq, hnum, _, hlt⟩
    · rw [hzero] at hid
      exact absurd rfl hid
    · exact ⟨callback, context, id, hreq, hnum, hlt⟩

/-- A response is not numbered as a request. -/
theorem response_number (hrule : Justified Rule own) (happ : RespondsToRequests own) {fd : Int}
    {packet : Packet} (h : .sendmsg conn fd .response packet true ∈ own) :
    isNewRequest packet.hdr.seqNum = false := by
  obtain ⟨t₁, t₂, ht⟩ := List.append_of_mem h
  obtain ⟨_, p, payload, context, hgiven⟩ := happ _ _ _ ht conn fd packet rfl
  obtain ⟨u₁, u₂, hu⟩ := List.append_of_mem hgiven
  have hreceived : Received u₁ p packet.hdr.seqNum payload := by
    apply hrule u₁ (.receiveCallback p packet.hdr.seqNum payload context)
      (u₂ ++ .sendmsg conn fd .response packet true :: t₂)
    rw [ht, hu, List.append_assoc, List.cons_append]
  obtain ⟨_, f, cid, _, _, hnum, _⟩ := hreceived
  rw [hnum]
  exact isNewRequest_deliveredSeqNum cid _

/-- **A response callback** goes back to its own request, and to what the peer
    answered to it. -/
theorem answersRequest_of_callback (hown : Justified Rule own) (hother : Justified Rule other)
    (happ : RespondsToRequests own) (happ' : RespondsToRequests other)
    (htaken : takenOn conn own <+: sentOn peer other)
    (htaken' : takenOn peer other <+: sentOn conn own) {t₁ t₂ : List Call} {req : Request}
    {seqNum : BitVec 32} {payload : List Byte}
    (h : own = t₁ ++ .responseCallback conn req statusOk seqNum payload :: t₂) :
    AnswersRequest conn peer t₁ other req payload := by
  have hresponded : Responded t₁ conn req statusOk payload := hown _ _ _ h
  have hpast : ∀ c ∈ t₁, c ∈ own := by
    intro c hc
    rw [h]
    exact List.mem_append_left _ hc
  have hrule₁ : Justified Rule t₁ := by
    rw [h] at hown
    exact hown.past
  -- the frame just taken
  obtain ⟨past, f, hlast, hold, hnum, hpayload⟩ : ∃ past f, t₁ = past ++ [.frame conn f] ∧
      ¬ f.IsNew ∧ getSeqId f.seqNum = req.seqNum ∧ payload = f.payload := by
    rcases hresponded.cause with htimeout | ⟨_, hframe⟩
    · exact absurd htimeout (by decide)
    · exact hframe
  have hf : f ∈ takenOn conn own := by
    apply mem_takenOn
    apply hpast
    rw [hlast]
    exact List.mem_append_right _ (List.mem_singleton_self _)
  -- the response that was sent
  obtain ⟨fd', sentBy, packet', hsend, hframe⟩ := of_mem_sentOn (htaken.subset hf)
  subst hframe
  obtain ⟨before, after, hsplit⟩ := List.append_of_mem hsend
  have hsent : Sent before peer sentBy packet' := hother _ _ _ hsplit
  obtain rfl : sentBy = .response := response_of_old hsent hold
  obtain ⟨hrequest, q, payload', context, hgiven⟩ := happ' _ _ _ hsplit peer fd' packet' rfl
  -- the message that it answers, which came on the same connection
  obtain rfl : q = peer := hsent.response rfl q payload' context hgiven
  obtain ⟨u₁, u₂, hu⟩ := List.append_of_mem hgiven
  have hreceived : Received u₁ q packet'.hdr.seqNum payload' := by
    apply hother u₁ (.receiveCallback q packet'.hdr.seqNum payload' context)
      (u₂ ++ .sendmsg q fd' .response packet' true :: after)
    rw [hsplit, hu, List.append_assoc, List.cons_append]
  obtain ⟨u₀, g, cid, hg, hgnew, hgnum, rfl⟩ := hreceived
  have hgtaken : g ∈ takenOn q other := by
    apply mem_takenOn
    rw [hsplit, hu, hg]
    simp
  -- the request that this message was
  obtain ⟨fd, sentBy₂, packet, hsend₂, hframe₂⟩ := of_mem_sentOn (htaken'.subset hgtaken)
  subst hframe₂
  obtain ⟨v₁, v₂, hv⟩ := List.append_of_mem hsend₂
  have hdelivered : afIpcSeqNumIsRequest (deliveredSeqNum cid (getSeqId packet.hdr.seqNum)) = true := by
    have hsame : packet'.hdr.seqNum = deliveredSeqNum cid (getSeqId packet.hdr.seqNum) := hgnum
    rw [← hsame]
    exact hrequest
  obtain ⟨callback, context₂, id, rfl, hid, hlt⟩ := request_of_answered (hown _ _ _ hv)
    (fun heq => response_number hown happ (heq ▸ hsend₂)) hgnew hdelivered
  -- which has the number of the request whose callback it is
  have hreq : id = req.seqNum := by
    have hdeliver : getSeqId packet'.hdr.seqNum = id := by
      have hsame : packet'.hdr.seqNum = deliveredSeqNum cid (getSeqId packet.hdr.seqNum) := hgnum
      rw [hsame, hid]
      exact getSeqId_delivered_request hlt cid
    exact hdeliver.symm.trans hnum
  obtain ⟨fd₁, packet₁, hsend₁, hnum₁⟩ := hresponded.wasSent.sent
  have hnew₁ : isNewRequest packet₁.hdr.seqNum = true := by
    rw [hnum₁]
    exact isNewRequest_or_mask _
  have hone := request_unique hown (hpast _ hsend₁) hsend₂ hnew₁ (by rw [hid, hnum₁, hreq])
  cases hone
  refine ⟨fd, packet, fd', packet', past, before, after, context, hsend₁, hnum₁, ?_, hsplit,
    hpayload.symm, ?_, hlast, hold⟩
  · intro fd₃ callback₃ context₃ packet₃ hsend₃ hnum₃
    have hsame := request_unique hrule₁ hsend₁ hsend₃ hnew₁ hnum₃
    cases hsame
    exact ⟨rfl, rfl, rfl, rfl⟩
  · refine ⟨u₀, u₂, ?_⟩
    rw [hu, hg]
    simp

/-- The callback of a request is called once. -/
theorem calledOn_nodup (hown : Justified Rule own) : (own.filterMap (calledOn conn)).Nodup := by
  apply hown.nodup
  intro past c ptr hrule hkey d hd hsame
  cases c with
  | responseCallback p req status seqNum payload =>
      simp only [calledOn] at hkey
      split_ifs at hkey with hp
      subst hp
      obtain rfl := Option.some.inj hkey
      have hwaits : Waits past p req := hrule.waits
      cases d with
      | responseCallback q req' status' seqNum' payload' =>
          simp only [calledOn] at hsame
          split_ifs at hsame with hq
          subst hq
          exact hwaits req' status' seqNum' payload' hd (Option.some.inj hsame)
      | _ => cases hsame
  | _ => cases hkey

theorem correlated_of_rules (hown : Justified Rule own) (hother : Justified Rule other)
    (happ : RespondsToRequests own) (happ' : RespondsToRequests other)
    (htaken : takenOn conn own <+: sentOn peer other)
    (htaken' : takenOn peer other <+: sentOn conn own) : Correlated conn peer own other where
  answered := fun _ _ _ _ _ h =>
    answersRequest_of_callback hown hother happ happ' htaken htaken' h
  status := by
    intro req status seqNum payload hmem
    obtain ⟨t₁, t₂, ht⟩ := List.append_of_mem hmem
    have hresponded : Responded t₁ conn req status payload := hown _ _ _ ht
    rcases hresponded.cause with htimeout | ⟨hok, _⟩
    · exact Or.inr htimeout
    · exact Or.inl hok
  once := calledOn_nodup hown

end Correlated

/-- What the handler does with a frame that answers no request. -/
structure Uncompleted (W : Type) (R : Receiver W) (f : Frame) (w : W) : Prop where
  /-- A request or an unsolicited message goes to the receive callback. -/
  new : f.IsNew → handleFrame R f w =
    R.receive (deliveredSeqNum R.clientId (getSeqId f.seqNum)) f.payload (R.note f w)
  /-- A response that comes too late, or twice, goes nowhere. -/
  late : ¬ f.IsNew → ∀ rc base, R.table (R.note f w) = .ok (rc, base) →
    (∀ r ∈ rc.pendingRequests, r.seqNum ≠ getSeqId f.seqNum) → handleFrame R f w = .ok (R.note f w)

theorem handleFrame_uncompleted (W : Type) (R : Receiver W) (f : Frame) (w : W) :
    Uncompleted W R f w where
  new := by
    intro hnew
    simp only [handleFrame]
    exact if_pos hnew
  late := by
    intro hold rc base htable hnone
    exact handleFrame_unmatched hold htable (takeResponse_none hnone)

/-- **Requests and responses are correlated** over any interleaving.  In any state
    that the parties of a system get to, where the channels are FIFO for whole frames,
    as the receive loop takes them, the applications respond to what they were asked
    and the sequence ids and client ids have not wrapped, and on each of its
    connections: a response callback with status 0 is for the request it was
    registered with and has the payload that the peer answered to that request; a
    request has one callback at most, with a response or a timeout; and no request is
    completed by a request, by an unsolicited message, or by a response that comes too
    late or twice. -/
theorem correlation_of_run {s : Sys} (hreach : s.Reachable) (hregular : s.Regular) (p : Nat) :
    Correlated p 0 s.server.trace (s.client p).trace ∧
      Correlated 0 p (s.client p).trace s.server.trace ∧
      ∀ (W : Type) (R : Receiver W) (f : Frame) (w : W), Uncompleted W R f w := by
  obtain ⟨hserver, hclient⟩ := hreach.sound
  have hrule : Justified Rule s.server.trace := (hserver.correlates hregular.serverBounded).rule
  have hrule' : Justified Rule (s.client p).trace :=
    ((hclient p).correlates (hregular.clientBounded p)).rule
  refine ⟨?_, ?_, handleFrame_uncompleted⟩
  · exact correlated_of_rules hrule hrule' hregular.server (hregular.client p)
      (hregular.fifo.toServer p) (hregular.fifo.toClient p)
  · exact correlated_of_rules hrule' hrule (hregular.client p) hregular.server
      (hregular.fifo.toClient p) (hregular.fifo.toServer p)

/-- The server and its client of `oneAccepted`, and no others. -/
def openSys : Sys where
  server :=
    { server := ⟨3, some 0, false, [], 0, 0, some 1, 0, some 2, some 3⟩
      base := ⟨[⟨0, .server, true⟩], 1⟩, script := [], trace := [] }
  client := fun _ => Ipcc.openClient

/-- A request with the payload 7. -/
def requestSent : Call :=
  .sendmsg 0 3 (.request (some 9) 0) ⟨⟨0x8001, 9⟩, 1, [7]⟩ true

/-- The server has answered with the payload 8. -/
def serverTrace : List Call :=
  [.accept 4, .acceptCallback 1, .frame 1 ⟨0x8001, [7]⟩, .receiveCallback 1 0x10001 [7] 0,
    .sendmsg 1 4 .response ⟨⟨0x10001, 9⟩, 1, [8]⟩ true]

/-- And the client has received the answer. -/
def clientTrace : List Call :=
  [requestSent, .frame 0 ⟨0x10001, [8]⟩,
    .responseCallback 0 ⟨1, 1, some 2, 1000, some 9, 0⟩ statusOk 1 [8]]

/-- The first client to be accepted has had its request answered. -/
def answered : Sys where
  server :=
    { server := ⟨3, some 0, false, [⟨1, 4, 1, some 2, ⟨0, true, []⟩, 0, 0⟩], 1, 0, some 1, 0,
        some 2, some 3⟩
      base := ⟨[⟨2, .client 1, true⟩, ⟨0, .server, true⟩], 3⟩, script := []
      trace := serverTrace }
  client := Function.update (Function.update (fun _ => Ipcc.openClient) 1
    { server := some ⟨3, 0, some 1, some 2, 0, some 0, ⟨1, true, [⟨1, 1, some 2, 1000, some 9, 0⟩]⟩⟩
      base := ⟨[⟨2, .request 1, true⟩, ⟨0, .server, true⟩], 3⟩, script := []
      trace := [requestSent] }) 1
    { server := some ⟨3, 0, some 1, some 2, 0, some 0, ⟨1, true, []⟩⟩
      base := ⟨[⟨0, .server, true⟩], 3⟩, script := [], trace := clientTrace }

theorem openSys_opened : openSys.Opened := by
  refine ⟨⟨.good, ⟨[], 0⟩, some 1, 0, some 2, some 3, ?_, rfl⟩, fun p => ?_⟩
  · exact fun e he => absurd he List.not_mem_nil
  · exact ⟨_, _, _, _, _, _, rfl, Ipcc.openClient_opens⟩

theorem answered_reachable : answered.Reachable := by
  refine ⟨openSys, openSys_opened, ?_⟩
  apply Relation.ReflTransGen.tail
  apply Relation.ReflTransGen.tail
  apply Relation.ReflTransGen.tail
  apply Relation.ReflTransGen.tail
  · exact .refl
  · exact .server (e := .accept (.good 4) []) rfl
  · exact .client 1 (e := .call (.sendRequest [7] 1 (some 9) 0 1000 .good)) rfl
  · exact .server (e := .recv 1 [.data (Frame.mk 0x8001 [7]).encode]
      [[.sendResponse 0x10001 [8] 1 .good]]) rfl
  · exact .client 1 (e := .recv [.data (Frame.mk 0x10001 [8]).encode] []) rfl

/-- A call that is no response keeps the rule. -/
theorem RespondsToRequests.concat {t : List Call} (h : RespondsToRequests t) {c : Call}
    (hc : ∀ conn fd packet, c ≠ .sendmsg conn fd .response packet true) :
    RespondsToRequests (t ++ [c]) :=
  justified_concat.mpr ⟨h, fun conn fd packet heq => absurd heq (hc conn fd packet)⟩

theorem answered_client (p : Nat) :
    (answered.client p).trace = if p = 1 then clientTrace else [] := by
  by_cases hp : p = 1
  · rw [hp, if_pos rfl]
    rfl
  · simp only [answered]
    rw [Function.update_of_ne hp, Function.update_of_ne hp, if_neg hp]
    rfl

theorem bounded_of_length {t : List Call} (h : t.length < 2 ^ 15) : Bounded t where
  requests := fun _ => Nat.lt_of_le_of_lt List.countP_le_length h
  accepts := by
    have hle : acceptsOf t ≤ t.length := List.countP_le_length
    omega

theorem answered_regular : answered.Regular := by
  have hserver : RespondsToRequests serverTrace := by
    have hgiven : RespondsToRequests ([] ++ [.accept 4] ++ [.acceptCallback 1] ++
        [.frame 1 ⟨0x8001, [7]⟩] ++ [.receiveCallback 1 0x10001 [7] 0]) := by
      have hempty : RespondsToRequests [] := justified_nil
      refine (((hempty.concat ?_).concat ?_).concat ?_).concat ?_ <;>
        · intro conn fd packet heq
          cases heq
    refine justified_concat.mpr ⟨hgiven, fun conn fd packet heq => ?_⟩
    cases heq
    exact ⟨by decide, 1, [7], 0, by decide⟩
  have hclient : RespondsToRequests clientTrace := by
    have hempty : RespondsToRequests [] := justified_nil
    refine ((hempty.concat ?_).concat ?_).concat ?_ <;>
      · intro conn fd packet heq
        cases heq
  refine ⟨⟨fun p => ?_, fun p => ?_⟩, hserver, fun p => ?_, ?_, fun p => ?_⟩
  · rw [answered_client]
    show takenOn p serverTrace <+: _
    by_cases hp : p = 1
    · subst hp
      exact ⟨[], rfl⟩
    · have hnone : takenOn p serverTrace = [] := by
        simp [takenOn, takenOf, serverTrace, Ne.symm hp]
      rw [hnone]
      exact List.nil_prefix
  · rw [answered_client]
    show _ <+: sentOn p serverTrace
    by_cases hp : p = 1
    · subst hp
      exact ⟨[], rfl⟩
    · rw [if_neg hp]
      exact List.nil_prefix
  · rw [answered_client]
    split_ifs
    · exact hclient
    · exact justified_nil
  · exact bounded_of_length (by decide)
  · rw [answered_client]
    split_ifs
    · exact bounded_of_length (by decide)
    · exact bounded_of_length (by decide)

/-- A request of a client that the server has answered. -/
theorem correlation_of_run_answered :
    Correlated 1 0 answered.server.trace (answered.client 1).trace ∧
      Correlated 0 1 (answered.client 1).trace answered.server.trace ∧
      ∀ (W : Type) (R : Receiver W) (f : Frame) (w : W), Uncompleted W R f w :=
  correlation_of_run answered_reachable answered_regular 1

end AfIpc.System
