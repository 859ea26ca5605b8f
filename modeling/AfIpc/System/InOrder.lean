/-
  AfIpc.System.InOrder

  Where both ends of a connection have a receive callback, the messages of one end reach
  the callback of the other in the order in which they were sent, each once, with their
  payloads and the numbers of their requests.  So a broadcast of the server has its place
  among the messages of each client, and nothing else can take it.
-/

import AfIpc.Ipcc.InOrder
import AfIpc.Ipcs.InOrder
import AfIpc.System.Outcomes

namespace AfIpc.System

open AfIpc.Lib AfIpc.Ipc

-- ============================================================================
-- One direction of a connection
-- ============================================================================

/-- What has been handed over on `conn` is what the peer has sent on its `peer`, in order,
    as far as it has been taken. -/
structure InOrder (conn peer : Nat) (own other : List Call) : Prop where
  arrived : receivedOn conn own <+: messagesOn peer other
  all : takenOn conn own = sentOn peer other → receivedOn conn own = messagesOn peer other

section Direction

variable {conn peer : Nat} {own other : List Call}

/-- A message is a response or a new one, as it was sent. -/
theorem isNew_iff (hrule : Justified Rule other) (happ : RespondsToRequests other) {fd : Int}
    {sentBy : SentBy} {packet : Packet} (h : .sendmsg conn fd sentBy packet true ∈ other) :
    packet.frame.IsNew ↔ sentBy ≠ .response := by
  obtain ⟨t₁, t₂, ht⟩ := List.append_of_mem h
  refine ⟨?_, ?_⟩
  · rintro hnew rfl
    obtain ⟨hrequest, -⟩ := happ _ _ _ ht conn fd packet rfl
    rcases hnew with hzero | hbit
    · have hnone : getSeqId packet.hdr.seqNum = 0 := hzero
      rw [afIpcSeqNumIsRequest, hnone] at hrequest
      cases hrequest
    · rw [Packet.frame, isNewRequest_getSeqId, ← isNewRequest_eq,
        response_number hrule happ h] at hbit
      cases hbit
  · intro hne
    by_contra hold
    exact hne (response_of_old (hrule _ _ _ ht) hold)

/-- The messages among the frames that have been sent. -/
theorem messagesIn_sentOn {t : List Call} (h : ∀ fd sentBy packet,
    .sendmsg conn fd sentBy packet true ∈ t → (packet.frame.IsNew ↔ sentBy ≠ .response)) :
    messagesIn (sentOn conn t) = messagesOn conn t := by
  induction t with
  | nil => rfl
  | cons c t ih =>
      have hsent : sentOn conn (c :: t) = sentOn conn [c] ++ sentOn conn t :=
        @List.filterMap_append _ _ [c] t _
      have hone : messagesIn (sentOn conn [c]) = messagesOn conn [c] := by
        cases c with
        | sendmsg p fd sentBy packet ok =>
            cases ok with
            | false => rfl
            | true =>
                by_cases hp : p = conn
                · subst hp
                  have hnew := h fd sentBy packet List.mem_cons_self
                  by_cases hsentBy : sentBy = .response
                  · simp [sentOn, messagesIn, messagesOn, hnew, hsentBy]
                  · simp [sentOn, messagesIn, messagesOn, hnew, hsentBy]
                · simp [sentOn, messagesIn, messagesOn, hp]
        | _ => rfl
      rw [hsent, messagesIn_append, hone,
        ih (fun fd sentBy packet hmem => h fd sentBy packet (List.mem_cons_of_mem c hmem)),
        ← messagesOn_append]
      rfl

theorem inOrder_of_rules (hheeded : Heeded own) (hrule : Justified Rule other)
    (happ : RespondsToRequests other) (htaken : takenOn conn own <+: sentOn peer other) :
    InOrder conn peer own other := by
  have hsent : messagesIn (sentOn peer other) = messagesOn peer other :=
    messagesIn_sentOn (fun _ _ _ h => isNew_iff hrule happ h)
  refine ⟨?_, fun hall => ?_⟩
  · rw [hheeded conn, ← hsent]
    exact (htaken.filter _).map _
  · rw [hheeded conn, hall, hsent]

end Direction

-- ============================================================================
-- Both directions of every connection
-- ============================================================================

/-- The parties have been opened with a receive callback each. -/
structure Sys.Listens (s : Sys) : Prop where
  server : s.server.server.receiveCallback.isSome = true
  client : ∀ p t, (s.client p).server = some t → t.receiveCallback.isSome = true

/-- Each party has handed over what it has taken. -/
structure Sys.Attends (s : Sys) : Prop where
  server : Ipcs.Attends s.server
  client : ∀ p, Ipcc.Attends (s.client p)

section Runs

variable {s₀ s s' : Sys}

theorem Sys.Opened.attends (h : s.Opened) (hlistens : s.Listens) : s.Attends := by
  refine ⟨⟨hlistens.server, ?_⟩, fun p => ⟨hlistens.client p, ?_⟩⟩
  · obtain ⟨env, base, acb, actx, rcb, ccb, -, hopen⟩ := h.server
    rw [Ipcs.opened_eq hopen]
    exact fun _ => rfl
  · obtain ⟨env, base, name, rcb, rctx, ccb, -, hopen⟩ := h.client p
    rw [(Ipcc.opened_eq hopen).2]
    exact fun _ => rfl

/-- One event of one party. -/
theorem Sys.Step.attends (hstep : s.Step s') (hsettled : s.Settled) (h : s.Attends) :
    s'.Attends := by
  cases hstep with
  | server hstep =>
      exact ⟨(Ipcs.serverStep_attends hsettled.idle h.server _).of_ok hstep, h.client⟩
  | client p hstep =>
      have hclient := (Ipcc.clientStep_attends (h.client p) _).of_ok hstep
      refine ⟨h.server, fun q => ?_⟩
      by_cases hqp : q = p
      · subst hqp
        dsimp only
        rw [Function.update_self]
        exact hclient
      · dsimp only
        rw [Function.update_of_ne hqp]
        exact h.client q

theorem Sys.attends_of_steps (hsteps : Relation.ReflTransGen Sys.Step s s')
    (hsettled : s.Settled) (h : s.Attends) : s'.Settled ∧ s'.Attends := by
  induction hsteps with
  | refl => exact ⟨hsettled, h⟩
  | tail _ hstep ih => exact ⟨hstep.settled ih.1, hstep.attends ih.1 ih.2⟩

/-- **Messages are delivered in order**, none twice and none altered.  In any state that
    the parties get to in which the frames that have been taken on a connection are the
    first that have been sent on it, and each of them whole: on every connection and in
    both directions, the receive callback at one end has been handed the requests and
    unsolicited messages that have been sent at the other, a first part of them and in
    their order, with their payloads and with the numbers that their senders wait for; and
    all of them, if all have been taken. -/
theorem messages_in_order (hopened : s₀.Opened) (hlistens : s₀.Listens)
    (hsteps : Relation.ReflTransGen Sys.Step s₀ s) (hregular : s.Regular) (p : Nat) :
    InOrder p 0 s.server.trace (s.client p).trace ∧
      InOrder 0 p (s.client p).trace s.server.trace := by
  obtain ⟨hserver, hclient⟩ := Sys.Reachable.sound ⟨s₀, hopened, hsteps⟩
  have hattends := (Sys.attends_of_steps hsteps hopened.settled (hopened.attends hlistens)).2
  refine ⟨?_, ?_⟩
  · exact inOrder_of_rules hattends.server.heeded
      ((hclient p).correlates (hregular.clientBounded p)).rule (hregular.client p)
      (hregular.fifo.toServer p)
  · exact inOrder_of_rules (hattends.client p).heeded
      (hserver.correlates hregular.serverBounded).rule hregular.server (hregular.fifo.toClient p)

-- ============================================================================
-- Broadcasts
-- ============================================================================

/-- The message number `n` that is handed over on `conn`, if it comes to that, is `message`;
    and it does if everything has been taken. -/
structure HandedAs (n : Nat) (message : BitVec 32 × List Byte) (conn peer : Nat)
    (own other : List Call) : Prop where
  only : ∀ m, (receivedOn conn own)[n]? = some m → m = message
  all : takenOn conn own = sentOn peer other → (receivedOn conn own)[n]? = some message

theorem Sys.Step.server_trace (hstep : s.Step s') (h : s.Settled) :
    s.server.trace <+: s'.server.trace := by
  cases hstep with
  | server hstep =>
      obtain ⟨-, hevolves⟩ := (Ipcs.serverStep_spec h.idle _).of_ok hstep
      obtain ⟨calls, htrace⟩ := hevolves.steps.trace
      exact ⟨calls, htrace.symm⟩
  | client p hstep => exact List.prefix_refl _

theorem Sys.server_trace_of_steps (hsteps : Relation.ReflTransGen Sys.Step s s')
    (h : s.Settled) : s'.Settled ∧ s.server.trace <+: s'.server.trace := by
  induction hsteps with
  | refl => exact ⟨h, List.prefix_refl _⟩
  | tail _ hstep ih => exact ⟨hstep.settled ih.1, ih.2.trans (hstep.server_trace ih.1)⟩

/-- A message that has been sent keeps its place. -/
theorem handedAs_of_inOrder {conn peer : Nat} {own other past : List Call}
    {message : BitVec 32 × List Byte} (h : InOrder conn peer own other)
    (hsent : messagesOn peer past ++ [message] <+: messagesOn peer other) :
    HandedAs (messagesOn peer past).length message conn peer own other := by
  have hplace : (messagesOn peer other)[(messagesOn peer past).length]? = some message := by
    obtain ⟨rest, hrest⟩ := hsent
    rw [← hrest, List.append_assoc, List.getElem?_append_right (Nat.le_refl _), Nat.sub_self]
    rfl
  refine ⟨fun m hm => ?_, fun hall => ?_⟩
  · obtain ⟨rest, hrest⟩ := h.arrived
    have hlt := (List.getElem?_eq_some_iff.mp hm).1
    rw [← hrest, List.getElem?_append_left hlt, hm] at hplace
    exact Option.some.inj hplace
  · rw [h.all hall]
    exact hplace

/-- **A broadcast reaches every client once.**  In any state that the parties get to, a
    broadcast of a message of a size that can be sent, the empty one included, returns 0,
    closes no connection and leaves the request tables and the timers as they were; it is
    sent to no client whose `sendmsg` fails; and to each of the others it is the next
    message, so that in every later state that is regular it is the one that the client's
    receive callback has been handed in this place, if it has been handed so many, and has
    been handed if the client has taken everything. -/
theorem broadcast_delivered (hopened : s₀.Opened) (hlistens : s₀.Listens)
    (hsteps : Relation.ReflTransGen Sys.Step s₀ s) {txBuffer : List Byte}
    (hint : txBuffer.length < 2 ^ 31) (hover : oversize txBuffer.length = false)
    (env : Int → SendEnv) :
    ∃ w, Ipcs.afIpcsSendUnsolicited 0 txBuffer txBuffer.length env s.server = .ok (⟨0, none⟩, w) ∧
      w.server = s.server.server ∧ w.base = s.server.base ∧
      (∀ p, (∀ c ∈ s.server.server.clients, c.ptr = p → (env c.clientFd).sendmsg = false) →
        messagesOn p w.trace = messagesOn p s.server.trace) ∧
      ∀ s', Relation.ReflTransGen Sys.Step { s with server := w } s' → s'.Regular →
        ∀ c ∈ s.server.server.clients, (env c.clientFd).sendmsg = true →
          HandedAs (messagesOn c.ptr s.server.trace).length (0, txBuffer) 0 c.ptr
            (s'.client c.ptr).trace s'.server.trace := by
  obtain ⟨hsettled, -⟩ := Sys.attends_of_steps hsteps hopened.settled (hopened.attends hlistens)
  have hcall := @Ipcs.broadcast_returns s.server txBuffer txBuffer.length env hsettled.idle
  refine ⟨_, hcall, rfl, rfl, fun p hp => ?_, fun s' hlater hregular c hc hsend => ?_⟩
  · show messagesOn p (s.server.trace ++ _) = _
    rw [messagesOn_append, Ipcs.messagesOn_broadcast_nil hover _ hp, List.append_nil]
  · have hstep : s.Step { s with server := _ } :=
      .server (e := .call (.sendUnsolicited 0 txBuffer txBuffer.length env))
        (Ipcs.serverStep_broadcast hcall)
    have hall : Relation.ReflTransGen Sys.Step s₀ s' := (hsteps.tail hstep).trans hlater
    have horder := (messages_in_order hopened hlistens hall hregular c.ptr).2
    have hpayload : (makePacket 0 txBuffer txBuffer.length).frame.payload = txBuffer :=
      makePacket_payload hint
    have hmessage : (makePacket 0 txBuffer txBuffer.length).frame.message = (0, txBuffer) := by
      have hzero : messageId 0 = 0 := by decide
      rw [Frame.message, hpayload]
      exact congrArg (fun id => (id, txBuffer)) hzero
    refine handedAs_of_inOrder horder ?_
    have hgrown := (Sys.server_trace_of_steps hlater (hstep.settled hsettled)).2
    obtain ⟨calls, hcalls⟩ := hgrown
    refine ⟨messagesOn c.ptr calls, ?_⟩
    rw [← hcalls, messagesOn_append]
    show _ = messagesOn c.ptr (s.server.trace ++ _) ++ _
    rw [messagesOn_append, Ipcs.messagesOn_broadcast hover _ hsettled.idle.ptrs hc hsend, hmessage]

end Runs

/-- The server of `openSys` with one client, which it has sent nothing. -/
def welcomed : Sys where
  server :=
    { server := ⟨3, some 0, false, [⟨1, 4, 1, some 2, ⟨0, true, []⟩, 0, 0⟩], 1, 0, some 1, 0,
        some 2, some 3⟩
      base := ⟨[⟨2, .client 1, true⟩, ⟨0, .server, true⟩], 3⟩, script := []
      trace := [.accept 4, .acceptCallback 1] }
  client := fun _ => Ipcc.openClient

/-- It has broadcast a message. -/
def announced : Sys where
  server := { welcomed.server with
    trace := [.accept 4, .acceptCallback 1, .sendmsg 1 4 .unsolicited ⟨⟨0, 9⟩, 1, [7]⟩ true] }
  client := welcomed.client

/-- And the client has been handed it. -/
def notified : Sys where
  server := announced.server
  client := Function.update announced.client 1
    { Ipcc.openClient with trace := [.frame 0 ⟨0, [7]⟩, .receiveCallback 0 0 [7] 0] }

theorem openSys_listens : openSys.Listens := by
  refine ⟨rfl, fun p t ht => ?_⟩
  obtain rfl := Option.some.inj ht
  rfl

theorem welcomed_steps : Relation.ReflTransGen Sys.Step openSys welcomed :=
  .single (.server (e := .accept (.good 4) []) rfl)

theorem announced_steps : Relation.ReflTransGen Sys.Step announced notified :=
  .single (.client 1 (e := .recv [.data (Frame.mk 0 [7]).encode] []) rfl)

theorem notified_client (p : Nat) :
    (notified.client p).trace =
      if p = 1 then [.frame 0 ⟨0, [7]⟩, .receiveCallback 0 0 [7] 0] else [] := by
  by_cases hp : p = 1
  · rw [hp, if_pos rfl]
    rfl
  · simp only [notified]
    rw [Function.update_of_ne hp, if_neg hp]
    rfl

/-- The channels have lost nothing, and nothing has been answered. -/
theorem notified_regular : notified.Regular := by
  have hempty : RespondsToRequests [] := justified_nil
  have hserver : RespondsToRequests notified.server.trace := by
    refine ((hempty.concat ?_).concat ?_).concat ?_ <;>
      · intro conn fd packet heq
        cases heq
  have hclient : RespondsToRequests [.frame 0 ⟨0, [7]⟩, .receiveCallback 0 0 [7] 0] := by
    refine (hempty.concat ?_).concat ?_ <;>
      · intro conn fd packet heq
        cases heq
  refine ⟨⟨fun p => ?_, fun p => ?_⟩, hserver, fun p => ?_, bounded_of_length (by decide),
    fun p => ?_⟩
  · exact List.nil_prefix
  · rw [notified_client]
    by_cases hp : p = 1
    · subst hp
      exact ⟨[], rfl⟩
    · rw [if_neg hp]
      exact List.nil_prefix
  · rw [notified_client]
    split_ifs
    · exact hclient
    · exact justified_nil
  · rw [notified_client]
    split_ifs
    · exact bounded_of_length (by decide)
    · exact bounded_of_length (by decide)

/-- The client has been handed the broadcast, and nothing else. -/
theorem messages_in_order_notified :
    InOrder 1 0 notified.server.trace (notified.client 1).trace ∧
      InOrder 0 1 (notified.client 1).trace notified.server.trace :=
  messages_in_order openSys_opened openSys_listens
    ((welcomed_steps.tail (.server
      (e := .call (.sendUnsolicited 0 [7] 1 fun _ => .good)) rfl : welcomed.Step announced)).trans
      announced_steps) notified_regular 1

/-- The broadcast is the first message of the client. -/
theorem broadcast_delivered_notified :
    HandedAs 0 (0, [7]) 0 1 (notified.client 1).trace notified.server.trace := by
  obtain ⟨w, hcall, -, -, -, hreaches⟩ := @broadcast_delivered openSys welcomed openSys_opened
    openSys_listens welcomed_steps [7] (by decide) (by decide) (fun _ => .good)
  obtain rfl : w = announced.server := (congrArg Prod.snd (Except.ok.inj hcall)).symm
  exact hreaches notified announced_steps notified_regular _ List.mem_cons_self rfl

end AfIpc.System
