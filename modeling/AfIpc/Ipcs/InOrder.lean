/-
  AfIpc.Ipcs.InOrder

  A server that has a receive callback hands over each message that it takes, once and in
  order, whatever its callbacks do.
-/

import AfIpc.Ipc.InOrder
import AfIpc.Ipcs.Isolation

namespace AfIpc.Ipcs

open AfIpc.Lib AfIpc.Ipc

/-- There is a receive callback, and what has been taken has been handed over. -/
structure Attends (w : World) : Prop where
  listens : w.server.receiveCallback.isSome = true
  heeded : Heeded w.trace

/-- Nothing is taken or handed over, and the receive callback stays. -/
structure Unnoticed (w w' : World) : Prop where
  callback : w'.server.receiveCallback = w.server.receiveCallback
  silent : Silent w.trace w'.trace

section Unnoticed

variable {w w' : World}

theorem Attends.unnoticed (h : Attends w) (hw : Unnoticed w w') : Attends w' := by
  refine ⟨?_, h.heeded.silent hw.silent⟩
  rw [hw.callback]
  exact h.listens

theorem unnoticed_of_trace (hcallback : w'.server.receiveCallback = w.server.receiveCallback)
    (htrace : w'.trace = w.trace) : Unnoticed w w' := by
  refine ⟨hcallback, ?_⟩
  rw [htrace]
  exact Silent.refl w.trace

theorem unnoticed_note {c : Call} (hc : c.incoming = false) : Unnoticed w (w.note c) :=
  ⟨rfl, silent_concat hc⟩

theorem Unnoticed.trans {w'' : World} (h : Unnoticed w w') (h' : Unnoticed w' w'') : Unnoticed w w'' :=
  ⟨h'.callback.trans h.callback, h.silent.trans h'.silent⟩

theorem closed_unnoticed (status : Int) (c : Client) : Unnoticed w (w.closed status c) := by
  refine ⟨rfl, closeCalls status c w.server.closeCallback, rfl, fun d hd => ?_⟩
  rcases List.mem_append.mp hd with hd | hd
  · simp only [List.mem_cons, List.not_mem_nil, or_false] at hd
    rcases hd with rfl | rfl | rfl <;> rfl
  · split_ifs at hd
    · rw [List.mem_singleton.mp hd]
      rfl
    · cases hd

/-- What the application calls makes no difference. -/
theorem kept_unnoticed : Kept Unnoticed where
  refl := fun _ => unnoticed_of_trace rfl rfl
  trans := Unnoticed.trans
  locked := fun _ => unnoticed_of_trace rfl rfl
  unlock := fun _ => unnoticed_of_trace rfl rfl
  script := fun _ _ => unnoticed_of_trace rfl rfl
  note := by
    intro w c sentBy packet ok
    cases packet with
    | none => exact unnoticed_of_trace rfl rfl
    | some packet => exact unnoticed_note rfl
  table := fun _ _ _ _ _ => unnoticed_of_trace rfl rfl
  close := by
    intro w status ptr
    cases hclient : w.client ptr with
    | error e =>
        unfold closeClient
        rw [hclient]
        exact not_false
    | ok c =>
        cases hmutex : w.server.clntMutex with
        | true =>
            rw [closeClient_locked hclient hmutex]
            exact not_false
        | false =>
            rw [closeClient_eq hclient hmutex]
            exact closed_unnoticed status c

end Unnoticed

-- ============================================================================
-- Events
-- ============================================================================

section Events

variable {w : World}

/-- What a callback does. -/
theorem runCallback_attends (h : Attends w) : Safe anyFault Attends (runCallback w) :=
  (kept_unnoticed.callback w).mono (fun _ hv => h.unnoticed hv)

theorem closeClient_attends (h : Attends w) (status : Int) (ptr : Nat) :
    Safe anyFault Attends (closeClient status ptr w) :=
  (kept_unnoticed.close w status ptr).mono (fun _ hv => h.unnoticed hv)

/-- **A frame** is handed over if it is no response. -/
theorem handleFrame_attends (h : Attends w) (ptr : Nat) (cid : BitVec 16) (cb : Callback)
    (context : Context) (f : Frame) :
    Safe anyFault Attends (handleFrame (serverReceiver ptr cid (some cb) context) f w) := by
  simp only [Ipc.handleFrame, serverReceiver]
  split_ifs with hnew
  · have hheeded : Heeded (w.trace ++ [.frame ptr f,
        .receiveCallback ptr (deliveredSeqNum cid (getSeqId f.seqNum)) f.payload context]) :=
      h.heeded.append (heeded_message hnew cid context)
    rw [List.append_cons] at hheeded
    exact runCallback_attends ⟨h.listens, hheeded⟩
  · have hnoted : Attends (w.note (.frame ptr f)) :=
      ⟨h.listens, h.heeded.append (heeded_response hnew)⟩
    cases hclient : (w.note (.frame ptr f)).client ptr with
    | error e => exact not_false
    | ok c =>
        simp only [bind, Except.bind, pure, Except.pure]
        cases takeResponse (getSeqId f.seqNum) c.reqControl (w.note (.frame ptr f)).base with
        | mk found rest =>
            obtain ⟨rc, base⟩ := rest
            cases found with
            | none => exact hnoted
            | some req =>
                have hset := hnoted.unnoticed (kept_unnoticed.table _ c rc base (client_mem hclient).1)
                dsimp only
                cases req.responseCallback with
                | none => exact hset
                | some cb => exact runCallback_attends (hset.unnoticed (unnoticed_note rfl))

/-- What `on_recv` takes, it hands over. -/
theorem onRecv_attends (h : Attends w) (ptr : Nat) (results : List RecvResult) :
    Safe anyFault Attends (onRecv ptr results w) := by
  refine recvLoop_keeps (fun v hv => ?_) (fun v hv => ?_)
    (fun status v hv => closeClient_attends hv status ptr) results h
  · simp only [serverHooks]
    cases v.client ptr with
    | error e => exact not_false
    | ok c =>
        -- the callback that is evaluated here is the one of every frame of the chunk
        obtain ⟨cb, hcb⟩ := Option.isSome_iff_exists.mp hv.listens
        refine ⟨⟨hv.listens, hv.heeded⟩, fun f u hu => ?_⟩
        have hsame : (v.setClient
            { c with flags := c.flags ||| clientFlagsInReceive }).server.receiveCallback = some cb :=
          hcb
        rw [hsame]
        exact handleFrame_attends hu ptr c.cid cb c.clientContext f
  · simp only [serverHooks]
    cases v.client ptr with
    | error e => exact not_false
    | ok c => exact ⟨hv.listens, hv.heeded⟩

/-- A timer hands nothing over. -/
theorem onTimeout_attends (h : Attends w) (event : Nat) :
    Safe anyFault Attends (onTimeout event w) := by
  unfold Ipcs.onTimeout
  cases w.base.timerOf event with
  | none => exact h
  | some ptr =>
      dsimp only
      cases howner : w.ownerOf ptr with
      | none => exact not_false
      | some c =>
          dsimp only
          cases afIpcOnTimeout ptr c.reqControl (timerFired event w.base) with
          | error e => exact not_false
          | ok out =>
              obtain ⟨req, rc, base⟩ := out
              have hset := h.unnoticed (kept_unnoticed.table w c rc base (ownerOf_mem howner).1)
              simp only [bind, Except.bind]
              cases req.responseCallback with
              | none => exact hset
              | some cb => exact runCallback_attends (hset.unnoticed (unnoticed_note rfl))

theorem watchAccepted_attends (h : Attends w) (ptr : Nat) :
    Safe anyFault Attends (watchAccepted ptr w) := by
  unfold watchAccepted
  cases w.client ptr with
  | error e => exact not_false
  | ok c =>
      simp only [bind, Except.bind]
      cases c.recvEvent <;> exact ⟨h.listens, h.heeded⟩

/-- An accept hands nothing over. -/
theorem onAccept_attends (hi : Idle w) (h : Attends w) (env : AcceptEnv) :
    Safe anyFault Attends (onAccept env w) := by
  have hrefused : ∀ v : World, Attends v →
      Attends ((v.note (.accept env.clientFd)).note (.closeFd env.clientFd)) := fun v hv =>
    hv.unnoticed ((unnoticed_note rfl).trans (unnoticed_note rfl))
  have haccepted : ∀ cid, Attends (w.accepted env cid) := fun cid =>
    h.unnoticed ⟨rfl, silent_concat rfl⟩
  have hend := onAccept_accepting hi env
  generalize onAccept env w = out at hend
  cases hend with
  | ignored hbad => exact h
  | refused hbad => exact hrefused w h
  | searching hcid => exact not_false
  | dropped hbad hcid => exact hrefused _ ⟨h.listens, h.heeded⟩
  | stuck hevent => exact not_false
  | @quiet cid hgood hcid hcb => exact watchAccepted_attends (haccepted cid) _
  | @greeted cid hgood hcid _ _ =>
      have hgreeted : Attends (w.greeted env cid) :=
        (haccepted cid).unnoticed ⟨rfl, silent_concat rfl⟩
      exact (runCallback_attends hgreeted).bind (fun v hv => watchAccepted_attends hv _)

/-- **One event.** -/
theorem serverStep_attends (hi : Idle w) (h : Attends w) (ev : ServerEvent) :
    Safe anyFault Attends (serverStep w ev) := by
  have hscripted : ∀ script, Attends { w with script := script } :=
    fun _ => ⟨h.listens, h.heeded⟩
  cases ev with
  | accept env script => exact onAccept_attends (hi.scripted script) (hscripted script) env
  | recv ptr results script =>
      simp only [serverStep]
      split_ifs
      · exact onRecv_attends (hscripted script) ptr results
      · exact h
  | timeout event script => exact onTimeout_attends (hscripted script) event
  | call action => exact (kept_unnoticed.action w action).mono (fun _ hv => h.unnoticed hv)

end Events

-- ============================================================================
-- Broadcasts
-- ============================================================================

section Broadcast

variable {w : World} {txBuffer : List Byte} {txBufferSize : Int} {env : Int → SendEnv}

/-- What a broadcast sends to the client `c`. -/
def broadcastTo (txBuffer : List Byte) (txBufferSize : Int) (env : Int → SendEnv)
    (base : EventBase) (c : Client) : List Call :=
  sendCalls c.ptr c.clientFd .unsolicited
    (afIpcSend none base 0 txBuffer txBufferSize none 0 0 (env c.clientFd)).packet
    (env c.clientFd).sendmsg

theorem broadcast_eq (clients : List Client) : broadcast txBuffer txBufferSize env clients w =
    { w with trace := w.trace ++ clients.flatMap (broadcastTo txBuffer txBufferSize env w.base) } := by
  unfold broadcast
  induction clients generalizing w with
  | nil =>
      rw [List.flatMap_nil, List.append_nil]
      rfl
  | cons c clients ih =>
      rw [List.foldl_cons, noteSend_eq, ih, List.flatMap_cons, ← List.append_assoc]
      rfl

/-- The message, if it can be sent to the client. -/
theorem messagesOn_broadcastTo (hover : oversize txBufferSize = false) (base : EventBase)
    (c : Client) (p : Nat) :
    messagesOn p (broadcastTo txBuffer txBufferSize env base c) =
      if c.ptr = p ∧ (env c.clientFd).sendmsg = true then
        [(makePacket 0 txBuffer txBufferSize).frame.message] else [] := by
  have hpacket : (afIpcSend none base 0 txBuffer txBufferSize none 0 0 (env c.clientFd)).packet =
      some (makePacket 0 txBuffer txBufferSize) := by
    simp only [afIpcSend, hover]
    cases (env c.clientFd).sendmsg <;> rfl
  rw [broadcastTo, hpacket]
  cases (env c.clientFd).sendmsg with
  | false => simp [messagesOn, sendCalls]
  | true =>
      by_cases hp : c.ptr = p
      · simp [messagesOn, sendCalls, hp]
      · simp [messagesOn, sendCalls, hp]

/-- A client that cannot be sent to, or is none, is not sent the message. -/
theorem messagesOn_broadcast_nil (hover : oversize txBufferSize = false) (base : EventBase)
    {clients : List Client} {p : Nat}
    (h : ∀ c ∈ clients, c.ptr = p → (env c.clientFd).sendmsg = false) :
    messagesOn p (clients.flatMap (broadcastTo txBuffer txBufferSize env base)) = [] := by
  induction clients with
  | nil => rfl
  | cons c clients ih =>
      have hc := h c List.mem_cons_self
      rw [List.flatMap_cons, messagesOn_append, messagesOn_broadcastTo hover, if_neg,
        ih (fun d hd => h d (List.mem_cons_of_mem c hd)), List.append_nil]
      rintro ⟨hp, hsend⟩
      rw [hc hp] at hsend
      cases hsend

/-- The others are, once. -/
theorem messagesOn_broadcast (hover : oversize txBufferSize = false) (base : EventBase)
    {clients : List Client} (hnodup : (clients.map Client.ptr).Nodup) {c : Client}
    (hc : c ∈ clients) (hsend : (env c.clientFd).sendmsg = true) :
    messagesOn c.ptr (clients.flatMap (broadcastTo txBuffer txBufferSize env base)) =
      [(makePacket 0 txBuffer txBufferSize).frame.message] := by
  obtain ⟨before, after, rfl⟩ := List.append_of_mem hc
  rw [List.map_append, List.map_cons, List.nodup_append'] at hnodup
  obtain ⟨-, hafter, hdisjoint⟩ := hnodup
  have hbefore : ∀ d ∈ before, d.ptr = c.ptr → (env d.clientFd).sendmsg = false := by
    intro d hd hptr
    have hmem : d.ptr ∈ before.map Client.ptr := List.mem_map_of_mem hd
    rw [hptr] at hmem
    exact absurd List.mem_cons_self (hdisjoint hmem)
  have hrest : ∀ d ∈ after, d.ptr = c.ptr → (env d.clientFd).sendmsg = false := by
    intro d hd hptr
    have hmem : d.ptr ∈ after.map Client.ptr := List.mem_map_of_mem hd
    rw [hptr] at hmem
    exact absurd hmem (List.nodup_cons.mp hafter).1
  rw [List.flatMap_append, List.flatMap_cons, messagesOn_append, messagesOn_append,
    messagesOn_broadcast_nil hover base hbefore, messagesOn_broadcast_nil hover base hrest,
    messagesOn_broadcastTo hover, if_pos ⟨rfl, hsend⟩]
  rfl

/-- **A broadcast** returns 0 and changes nothing but what has been sent. -/
theorem broadcast_returns (hi : Idle w) :
    afIpcsSendUnsolicited 0 txBuffer txBufferSize env w =
      .ok (⟨0, none⟩, { w with trace := w.trace ++
        w.server.clients.flatMap (broadcastTo txBuffer txBufferSize env w.base) }) := by
  have hserver : { w.server with clntMutex := false } = w.server := by
    rw [← hi.unlocked]
  simp only [afIpcsSendUnsolicited, lock_eq hi.unlocked, broadcast_eq]
  exact congrArg (fun server => Except.ok (Reply.mk 0 none, World.mk server w.base w.script
    (w.trace ++ w.server.clients.flatMap (broadcastTo txBuffer txBufferSize env w.base)))) hserver

/-- As a call from outside. -/
theorem serverStep_broadcast {reply : Reply} {w' : World}
    (h : afIpcsSendUnsolicited 0 txBuffer txBufferSize env w = .ok (reply, w')) :
    serverStep w (.call (.sendUnsolicited 0 txBuffer txBufferSize env)) = .ok w' := by
  simp only [serverStep, runAction, h]
  rfl

end Broadcast

end AfIpc.Ipcs
