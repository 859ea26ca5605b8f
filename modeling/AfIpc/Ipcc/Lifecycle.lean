/-
  AfIpc.Ipcc.Lifecycle

  The life of a connection on the client side.  Between events the connection is
  open with no flag set, or freed with no event left to touch it (`Quiet`).
  Inside the receive loop it is open with the in-receive flag set (`Receiving`),
  and the calls a callback can make keep it so, with one exception: a send that
  fails frees the connection at once, while `af_ipcc_close` defers to the flag.
-/

import AfIpc.Ipc.RequestSpec
import AfIpc.Ipcc.Client

namespace AfIpc.Ipcc

open AfIpc.Lib AfIpc.Ipc

-- ============================================================================
-- States of a connection
-- ============================================================================

/-- The connection is open, and only its own event can call `on_recv`. -/
structure OpenWith (F : BitVec 16 → Prop) (w : World) : Prop where
  server : ∃ s, w.server = some s ∧ 0 ≤ s.fd ∧ F s.flags ∧
    w.base.All (fun id arg => arg = .server → s.event = some id)
  closes : closesOf 0 w.trace = 0
  releases : releasesOf 0 w.trace = 0

/-- The connection is freed, once, and no event leads to it. -/
structure Freed (w : World) : Prop where
  server : w.server = none
  closes : closesOf 0 w.trace ≤ 1
  releases : releasesOf 0 w.trace = 1
  events : w.base.All (fun _ arg => arg ≠ .server)

/-- The state between events. -/
def Quiet (w : World) : Prop := OpenWith (fun f => f = 0) w ∨ Freed w

/-- The flags inside the receive loop. -/
def ReceivingFlags (f : BitVec 16) : Prop :=
  f = flagsInReceive ∨ f = flagsInReceive ||| flagsMarkedForShutdown

/-- The call is a send that fails. -/
def Action.fails : Action → Bool
  | .sendRequest _ txBufferSize _ _ timeoutMs env =>
    !sendSucceeds (some ReqControl.zero) txBufferSize timeoutMs env
  | .sendResponse _ _ txBufferSize env => !sendSucceeds none txBufferSize 0 env
  | .sendUnsolicited _ txBufferSize env => !sendSucceeds none txBufferSize 0 env
  | .close => false

/-- No call of the script is a send that fails. -/
def Unfailing (script : List (List Action)) : Prop :=
  ∀ actions ∈ script, ∀ a ∈ actions, a.fails = false

/-- The state inside the receive loop with `n` frames to come, whose callbacks are not
    going to fail a send. -/
structure Receiving (n : Nat) (w : World) : Prop where
  alive : OpenWith ReceivingFlags w
  script : Unfailing (w.script.take n)

/-- The fault the connection must not run into. -/
def TouchesFreed (e : Fault) : Prop := e = .useAfterRelease

section States

variable {F G : BitVec 16 → Prop} {w : World}

theorem OpenWith.mono (h : OpenWith F w) (hFG : ∀ f, F f → G f) : OpenWith G w := by
  obtain ⟨s, hs, hfd, hF, hbase⟩ := h.server
  exact ⟨⟨s, hs, hfd, hFG _ hF, hbase⟩, h.closes, h.releases⟩

theorem OpenWith.deref (h : OpenWith F w) :
    ∃ s, w.deref = .ok s ∧ w.server = some s ∧ 0 ≤ s.fd ∧ F s.flags ∧
      w.base.All (fun id arg => arg = .server → s.event = some id) := by
  obtain ⟨s, hs, hrest⟩ := h.server
  exact ⟨s, by rw [World.deref, hs], hs, hrest⟩

/-- Observing a call that closes nothing. -/
theorem OpenWith.note (h : OpenWith F w) {c : Call} (hc : c.isClose 0 = false)
    (hr : c.isRelease 0 = false) : OpenWith F (w.note c) where
  server := h.server
  closes := by
    show closesOf 0 (w.trace ++ [c]) = 0
    rw [closesOf_concat, h.closes, hc]
    rfl
  releases := by
    show releasesOf 0 (w.trace ++ [c]) = 0
    rw [releasesOf_concat, h.releases, hr]
    rfl

theorem OpenWith.noteSend (h : OpenWith F w) (fd : Int) (sentBy : SentBy)
    (packet : Option Packet) (ok : Bool) : OpenWith F (w.noteSend fd sentBy packet ok) := by
  cases packet with
  | none => exact h
  | some packet => exact h.note rfl rfl

@[simp] theorem noteSend_script (fd : Int) (sentBy : SentBy) (packet : Option Packet)
    (ok : Bool) : (w.noteSend fd sentBy packet ok).script = w.script := by
  cases packet <;> rfl

/-- Writing the structure and the event base. -/
theorem OpenWith.update (h : OpenWith F w) {s : Server} {base : EventBase} (hfd : 0 ≤ s.fd)
    (hF : G s.flags) (hbase : base.All (fun id arg => arg = .server → s.event = some id)) :
    OpenWith G ((w.setServer s).setBase base) where
  server := ⟨s, rfl, hfd, hF, hbase⟩
  closes := h.closes
  releases := h.releases

theorem closeAndFreeServer_freed (h : OpenWith F w) (status : Int) :
    ∃ w', closeAndFreeServer status w = .ok w' ∧ Freed w' := by
  obtain ⟨s, hderef, _, hfd, _, hbase⟩ := h.deref
  have hne : s.fd ≠ -1 := by omega
  -- the event of the connection was the only one
  have hevents : (eventFreeIf s.event w.base).All (fun _ arg => arg ≠ .server) :=
    (hbase.eventFreeIf s.event).mono (fun id arg hp harg => hp.2 (hp.1 harg))
  have hall := hevents.shutdown s.reqControl
  simp only [closeAndFreeServer, hderef, bind, Except.bind]
  rw [if_pos hne]
  cases hcb : s.closeCallback with
  | none =>
      refine ⟨_, rfl, rfl, ?_, ?_, hall⟩
      · simp only [World.note, World.setBase, closesOf_concat, h.closes, Call.isClose]
        simp
      · simp only [World.note, World.setBase, releasesOf_concat, h.releases, Call.isRelease]
        simp
  | some cb =>
      refine ⟨_, rfl, rfl, ?_, ?_, hall⟩
      · simp only [World.note, World.setBase, closesOf_concat, h.closes, Call.isClose]
        simp
      · simp only [World.note, World.setBase, releasesOf_concat, h.releases, Call.isRelease]
        simp

end States

-- ============================================================================
-- Sends
-- ============================================================================

section Sends

variable {F : BitVec 16 → Prop} {w : World}

/-- A send that succeeds leaves the connection open, one that fails frees it. -/
theorem sendOrClose_spec (h : OpenWith F w) {s : Server} {r : SendResult} (sentBy : SentBy)
    (env : SendEnv) (hfd : 0 ≤ s.fd) (hF : F s.flags)
    (hbase : r.base.All (fun id arg => arg = .server → s.event = some id)) :
    ∃ reply w', sendOrClose s sentBy r env w = .ok (reply, w') ∧
      (r.ret < 0 → Freed w') ∧ (¬ r.ret < 0 → OpenWith F w' ∧ w'.script = w.script) := by
  have hopen : OpenWith F ((w.setServer s).setBase r.base) := h.update hfd hF hbase
  have hsent := hopen.noteSend s.fd sentBy r.packet env.sendmsg
  simp only [sendOrClose]
  by_cases hret : r.ret < 0
  · obtain ⟨w', hclose, hfreed⟩ := closeAndFreeServer_freed hsent statusError
    rw [if_pos hret, hclose]
    exact ⟨_, w', rfl, fun _ => hfreed, fun hn => absurd hret hn⟩
  · rw [if_neg hret]
    exact ⟨_, _, rfl, fun hn => absurd hn hret, fun _ => ⟨hsent, noteSend_script _ _ _ _⟩⟩

/-- Whether a send fails does not depend on what the table holds. -/
theorem sendSucceeds_table (rc : ReqControl) (txBufferSize timeoutMs : Int) (env : SendEnv) :
    sendSucceeds (some rc) txBufferSize timeoutMs env =
      sendSucceeds (some ReqControl.zero) txBufferSize timeoutMs env := rfl

/-- A call other than `af_ipcc_close` frees the connection if it fails and leaves
    it open if it does not. -/
theorem runAction_send (h : OpenWith F w) {a : Action} (hclose : a ≠ .close) :
    ∃ w', runAction w a = .ok w' ∧ (a.fails = true → Freed w') ∧
      (a.fails = false → OpenWith F w' ∧ w'.script = w.script) := by
  obtain ⟨s, hderef, hs, hfd, hF, hbase⟩ := h.deref
  have hsome : ¬ w.server.isNone = true := by rw [hs]; simp
  have hfd' : ¬ s.fd < 0 := by omega
  have htimer : ∀ id ptr, EventArg.request ptr = .server → s.event = some id := by
    intro id ptr hne
    cases hne
  simp only [runAction]
  rw [if_neg hsome]
  cases a with
  | sendRequest txBuffer txBufferSize callback context timeoutMs env =>
      have hret := @afIpcSend_ret (some s.reqControl) w.base 0 txBuffer txBufferSize callback
        context timeoutMs env
      have hevents := hbase.send htimer (some s.reqControl) 0 txBuffer txBufferSize callback
        context timeoutMs env
      simp only [afIpccSendRequest, hderef, bind, Except.bind]
      rw [if_neg hfd']
      generalize afIpcSend (some s.reqControl) w.base 0 txBuffer txBufferSize callback context
        timeoutMs env = r at hret hevents ⊢
      obtain ⟨reply, w', hsend, hfree, hkeep⟩ := @sendOrClose_spec F w h
        { s with reqControl := r.rc.getD s.reqControl } r (.request callback context) env hfd hF hevents
      rw [hsend]
      refine ⟨w', rfl, fun hf => hfree ?_, fun hf => hkeep ?_⟩
      · rw [hret, sendSucceeds_table]
        simp only [Action.fails, Bool.not_eq_true'] at hf
        rw [hf]
        decide
      · rw [hret, sendSucceeds_table]
        simp only [Action.fails, Bool.not_eq_false'] at hf
        rw [hf]
        decide
  | sendResponse seqNum txBuffer txBufferSize env =>
      have hret := @afIpcSend_ret none w.base seqNum txBuffer txBufferSize none 0 0 env
      have hevents := hbase.send htimer none seqNum txBuffer txBufferSize none 0 0 env
      simp only [afIpccSendResponse, hderef, bind, Except.bind]
      rw [if_neg hfd']
      obtain ⟨reply, w', hsend, hfree, hkeep⟩ := sendOrClose_spec h _ env hfd hF hevents
      rw [hsend]
      refine ⟨w', rfl, fun hf => hfree ?_, fun hf => hkeep ?_⟩
      · simp only [Action.fails, Bool.not_eq_true'] at hf
        rw [hret, hf]
        decide
      · simp only [Action.fails, Bool.not_eq_false'] at hf
        rw [hret, hf]
        decide
  | sendUnsolicited txBuffer txBufferSize env =>
      have hret := @afIpcSend_ret none w.base 0 txBuffer txBufferSize none 0 0 env
      have hevents := hbase.send htimer none 0 txBuffer txBufferSize none 0 0 env
      simp only [afIpccSendUnsolicited, hderef, bind, Except.bind]
      rw [if_neg hfd']
      obtain ⟨reply, w', hsend, hfree, hkeep⟩ := sendOrClose_spec h _ env hfd hF hevents
      rw [hsend]
      refine ⟨w', rfl, fun hf => hfree ?_, fun hf => hkeep ?_⟩
      · simp only [Action.fails, Bool.not_eq_true'] at hf
        rw [hret, hf]
        decide
      · simp only [Action.fails, Bool.not_eq_false'] at hf
        rw [hret, hf]
        decide
  | close => exact absurd rfl hclose

/-- No call is made on a freed handle. -/
theorem runAction_freed (h : Freed w) (a : Action) : runAction w a = .ok w := by
  simp only [runAction]
  rw [if_pos (by rw [h.server]; rfl)]

/-- Inside the receive loop `af_ipcc_close` only marks the connection. -/
theorem afIpccClose_receiving (h : OpenWith ReceivingFlags w) :
    ∃ w', afIpccClose w = .ok w' ∧ OpenWith ReceivingFlags w' ∧ w'.script = w.script := by
  obtain ⟨s, hderef, _, hfd, hF, hbase⟩ := h.deref
  have hin : s.flags &&& flagsInReceive ≠ 0 := by
    rcases hF with hf | hf <;> rw [hf] <;> decide
  have hmarked : ReceivingFlags (s.flags ||| flagsMarkedForShutdown) := by
    rcases hF with hf | hf <;> rw [hf]
    · exact .inr rfl
    · exact .inr (by decide)
  simp only [afIpccClose, hderef, bind, Except.bind]
  rw [if_pos hin]
  exact ⟨_, rfl, h.update hfd hmarked hbase, rfl⟩

/-- Outside it `af_ipcc_close` frees the connection. -/
theorem afIpccClose_quiet (h : OpenWith (fun f => f = 0) w) :
    ∃ w', afIpccClose w = .ok w' ∧ Freed w' := by
  obtain ⟨s, hderef, _, _, hF, _⟩ := h.deref
  have hin : ¬ (s.flags &&& flagsInReceive ≠ 0) := by
    rw [hF]
    decide
  simp only [afIpccClose, hderef, bind, Except.bind]
  rw [if_neg hin]
  exact closeAndFreeServer_freed h statusOk

end Sends

-- ============================================================================
-- Callbacks
-- ============================================================================

section Receiving

variable {w : World} {n : Nat}

theorem Unfailing.take {script : List (List Action)} {m : Nat} (h : Unfailing (script.take n))
    (hle : m ≤ n) : Unfailing (script.take m) :=
  fun actions hactions => h actions (List.take_subset_take_left script hle hactions)

/-- What is left for the callbacks behind one that was called. -/
theorem Unfailing.tail {script : List (List Action)} (h : Unfailing (script.take (n + 1))) :
    Unfailing (script.tail.take n) :=
  fun actions hactions => h actions (mem_take_of_mem_tail hactions)

/-- A call from inside the receive loop that is not a failing send. -/
theorem runAction_receiving (h : Receiving n w) {a : Action} (hfails : a.fails = false) :
    Safe TouchesFreed (Receiving n) (runAction w a) := by
  by_cases hclose : a = .close
  · subst hclose
    obtain ⟨s, hs, _⟩ := h.alive.server
    obtain ⟨w', hw', halive, hscript⟩ := afIpccClose_receiving h.alive
    have hsome : ¬ w.server.isNone = true := by rw [hs]; simp
    simp only [runAction]
    rw [if_neg hsome, hw']
    exact ⟨halive, by rw [hscript]; exact h.script⟩
  · obtain ⟨w', hw', _, hkeep⟩ := runAction_send h.alive hclose
    obtain ⟨halive, hscript⟩ := hkeep hfails
    rw [hw']
    exact ⟨halive, by rw [hscript]; exact h.script⟩

/-- Any call from outside the receive loop. -/
theorem runAction_quiet (h : Quiet w) (a : Action) :
    Safe TouchesFreed Quiet (runAction w a) := by
  rcases h with hopen | hfreed
  · by_cases hclose : a = .close
    · subst hclose
      obtain ⟨s, hs, _⟩ := hopen.server
      obtain ⟨w', hw', hfreed⟩ := afIpccClose_quiet hopen
      have hsome : ¬ w.server.isNone = true := by rw [hs]; simp
      simp only [runAction]
      rw [if_neg hsome, hw']
      exact .inr hfreed
    · obtain ⟨w', hw', hfree, hkeep⟩ := runAction_send hopen hclose
      rw [hw']
      cases hf : a.fails with
      | true => exact .inr (hfree hf)
      | false => exact .inl (hkeep hf).1
  · rw [runAction_freed hfreed]
    exact .inr hfreed

theorem Receiving.less (h : Receiving (n + 1) w) : Receiving n w :=
  ⟨h.alive, h.script.take (Nat.le_succ n)⟩

/-- A callback of the next frame. -/
theorem runCallback_receiving (h : Receiving (n + 1) w) :
    Safe TouchesFreed (Receiving n) (runCallback w) := by
  unfold runCallback
  split
  · exact h.less
  · rename_i actions script heq
    have hscript := h.script
    rw [heq] at hscript
    have hstart : Receiving n { w with script := script } :=
      ⟨⟨h.alive.server, h.alive.closes, h.alive.releases⟩, hscript.tail⟩
    exact Safe.run (fun v a ha hv => runAction_receiving hv
      (hscript actions List.mem_cons_self a ha)) hstart

theorem runCallback_quiet (h : Quiet w) :
    Safe TouchesFreed Quiet (runCallback w) := by
  unfold runCallback
  split
  · exact h
  · rename_i actions script heq
    have hstart : Quiet { w with script := script } := by
      rcases h with hopen | hfreed
      · exact .inl ⟨hopen.server, hopen.closes, hopen.releases⟩
      · exact .inr ⟨hfreed.server, hfreed.closes, hfreed.releases, hfreed.events⟩
    exact Safe.run (fun v a _ hv => runAction_quiet hv a) hstart

end Receiving

-- ============================================================================
-- The receive loop
-- ============================================================================

section Loop

variable {w : World} {n : Nat}

theorem Receiving.note (h : Receiving n w) {c : Call} (hc : c.isClose 0 = false)
    (hr : c.isRelease 0 = false) : Receiving n (w.note c) :=
  ⟨h.alive.note hc hr, h.script⟩

/-- One frame. -/
theorem handleFrame_receiving (h : Receiving (n + 1) w) (callback : Option Callback)
    (context : Context) (f : Frame) :
    Safe TouchesFreed (Receiving n) (handleFrame (receiver callback context) f w) := by
  have hnoted : Receiving (n + 1) (w.note (.frame 0 f)) := h.note rfl rfl
  simp only [handleFrame, receiver]
  split_ifs with hnew
  · -- a request or an unsolicited message
    cases callback with
    | none => exact hnoted.less
    | some cb => exact runCallback_receiving (hnoted.note rfl rfl)
  · -- a response
    obtain ⟨s, hderef, _, hfd, hF, hbase⟩ := hnoted.alive.deref
    have hbase' := hbase.takeResponse (getSeqId f.seqNum) s.reqControl
    simp only [hderef, bind, Except.bind, pure, Except.pure]
    generalize takeResponse (getSeqId f.seqNum) s.reqControl (w.note (.frame 0 f)).base = taken
      at hbase' ⊢
    obtain ⟨found, rc, base⟩ := taken
    cases found with
    | none => exact hnoted.less
    | some req =>
        have halive : OpenWith ReceivingFlags
            (((w.note (.frame 0 f)).setServer { s with reqControl := rc }).setBase base) :=
          hnoted.alive.update hfd hF hbase'
        have htaken : Receiving (n + 1)
            (((w.note (.frame 0 f)).setServer { s with reqControl := rc }).setBase base) :=
          ⟨halive, h.script⟩
        cases hcb : req.responseCallback with
        | none =>
            simp only [hcb]
            exact htaken.less
        | some cb =>
            simp only [hcb]
            exact runCallback_receiving (htaken.note rfl rfl)

/-- The frames of a chunk. -/
theorem handleFrames_receiving (callback : Option Callback) (context : Context) (fs : List Frame)
    (h : Receiving (fs.length + n) w) :
    Safe TouchesFreed (Receiving n)
      (run (fun w f => handleFrame (receiver callback context) f w) w fs) := by
  induction fs generalizing w with
  | nil =>
      rw [List.length_nil, Nat.zero_add] at h
      exact h
  | cons f fs ih =>
      rw [List.length_cons, Nat.add_right_comm] at h
      exact (handleFrame_receiving h callback context f).bind (fun v hv => ih hv)

/-- A connection between events, before a receive event whose callbacks are not going to
    fail a send. -/
structure Ready (results : List RecvResult) (w : World) : Prop where
  alive : OpenWith (fun f => f = 0) w
  script : Unfailing (entriesFor results w.script)

/-- **The receive loop** ends with the connection open or freed, and touches it
    only before. -/
theorem recvLoop_quiet (results : List RecvResult) (h : Ready results w) :
    Safe TouchesFreed Quiet (recvLoop hooks results w) := by
  induction results generalizing w with
  | nil => exact .inl h.alive
  | cons r rs ih =>
      have hclose : Safe TouchesFreed Quiet (closeAndFreeServer statusError w) := by
        obtain ⟨w', hw', hfreed⟩ := closeAndFreeServer_freed h.alive statusError
        rw [hw']
        exact .inr hfreed
      cases r with
      | eof => exact hclose
      | error e =>
          simp only [recvLoop]
          split_ifs
          · exact .inl h.alive
          · exact hclose
      | data bytes =>
          obtain ⟨s, hderef, _, hfd, hF, hbase⟩ := h.alive.deref
          have hentries := h.script
          rw [entriesFor, chunksOf, List.flatMap_cons, List.length_append] at hentries
          have henter : Receiving ((frames.items bytes).length +
              ((chunksOf rs).flatMap frames.items).length)
              (w.setServer { s with flags := s.flags ||| flagsInReceive }) := by
            refine ⟨?_, hentries⟩
            refine h.alive.update hfd ?_ hbase
            show ReceivingFlags (s.flags ||| flagsInReceive)
            rw [hF]
            exact .inl rfl
          simp only [recvLoop, hooks, hderef, bind, Except.bind, pure, Except.pure]
          rw [afIpcHandleReceiveMessage_eq]
          -- every frame of the chunk keeps the state of the loop
          have hhandled := handleFrames_receiving s.receiveCallback s.receiveContext
            (frames.items bytes) henter
          refine hhandled.bind (fun v hv => ?_)
          obtain ⟨t, hderef', _, hfd', hF', hbase'⟩ := hv.alive.deref
          simp only [hderef']
          have hleave : ∀ G : BitVec 16 → Prop, G (t.flags &&& ~~~flagsInReceive) →
              OpenWith G (v.setServer { t with flags := t.flags &&& ~~~flagsInReceive }) :=
            fun G hG => hv.alive.update hfd' hG hbase'
          rcases hF' with hf | hf
          · -- not marked: the loop goes on
            have hzero : t.flags &&& ~~~flagsInReceive = 0 := by rw [hf]; decide
            rw [hzero] at hleave ⊢
            exact ih ⟨hleave _ rfl, hv.script⟩
          · -- marked by `af_ipcc_close`: now the connection is freed
            have hone : t.flags &&& ~~~flagsInReceive = flagsMarkedForShutdown := by
              rw [hf]
              decide
            rw [hone] at hleave ⊢
            obtain ⟨w', hw', hfreed⟩ :=
              closeAndFreeServer_freed (hleave (fun _ => True) trivial) statusOk
            show Safe TouchesFreed Quiet (closeAndFreeServer statusOk _)
            rw [hw']
            exact .inr hfreed

end Loop

-- ============================================================================
-- Runs
-- ============================================================================

/-- No call that a callback makes inside the receive loop is a failing send. -/
def NoFailedSend (_ : World) : ClientEvent → Prop
  | .recv results script => Unfailing (entriesFor results script)
  | .timeout _ _ => True
  | .call _ => True

theorem clientStep_quiet {w : World} (h : Quiet w) {e : ClientEvent} (hcond : NoFailedSend w e) :
    Safe TouchesFreed Quiet (clientStep w e) := by
  have hscript : ∀ script, Quiet { w with script := script } := by
    intro script
    rcases h with hopen | hfreed
    · exact .inl ⟨hopen.server, hopen.closes, hopen.releases⟩
    · exact .inr ⟨hfreed.server, hfreed.closes, hfreed.releases, hfreed.events⟩
  cases e with
  | recv results script =>
      simp only [clientStep]
      by_cases hwatch : watches w.base = true
      · rw [if_pos hwatch]
        rcases h with hopen | hfreed
        · exact recvLoop_quiet results ⟨⟨hopen.server, hopen.closes, hopen.releases⟩, hcond⟩
        · -- the event of a freed connection is gone
          obtain ⟨e, he, hserver⟩ := List.any_eq_true.mp hwatch
          have hne := hfreed.events e he
          simp [hne] at hserver
      · rw [if_neg hwatch]
        exact h
  | timeout event script =>
      simp only [clientStep, onTimeout]
      cases htimer : w.base.timerOf event with
      | none => exact hscript script
      | some ptr =>
          rcases h with hopen | hfreed
          · obtain ⟨s, hs, hfd, hF, hbase⟩ := hopen.server
            simp only [hs]
            cases htimeout : afIpcOnTimeout ptr s.reqControl (timerFired event w.base) with
            | error e =>
                obtain rfl := afIpcOnTimeout_error htimeout
                intro hbad
                cases hbad
            | ok out =>
                obtain ⟨req, rc, base⟩ := out
                have hbase' := (hbase.timerFired event).onTimeout htimeout
                have hscripted : OpenWith (fun f => f = 0) { w with script := script } :=
                  ⟨hopen.server, hopen.closes, hopen.releases⟩
                have hopen' : OpenWith (fun f => f = 0)
                    ((({ w with script := script }).setServer
                      { s with reqControl := rc }).setBase base) :=
                  hscripted.update hfd hF hbase'
                simp only [bind, Except.bind]
                cases hcb : req.responseCallback with
                | none => exact .inl hopen'
                | some cb => exact runCallback_quiet (.inl (hopen'.note rfl rfl))
          · simp only [hfreed.server]
            intro hbad
            cases hbad
  | call action => exact runAction_quiet h action

/-- What a successful open leaves. -/
theorem opened_eq {env : OpenEnv} {base : EventBase} {name : CString}
    {receiveCallback : Option Callback} {receiveContext : Context}
    {closeCallback : Option Callback} {w : World}
    (hopen : afIpccOpenServer env base name receiveCallback receiveContext closeCallback =
      .ok (some w)) :
    0 ≤ env.socket ∧
      w = { server := some
              { fd := env.socket, flags := 0, receiveCallback := receiveCallback,
                closeCallback := closeCallback, receiveContext := receiveContext,
                event := some base.next, reqControl := { ReqControl.zero with mutexCreated := true } }
            base := eventAdd base.next (eventNew .server base).2, script := [], trace := [] } := by
  unfold afIpccOpenServer at hopen
  by_cases hfail : ¬ env.base ∨ ¬ env.alloc ∨ env.socket < 0
  · rw [if_pos hfail] at hopen
    cases hopen
  rw [if_neg hfail] at hopen
  obtain ⟨_, -, hopen⟩ := bind_eq_ok.mp hopen
  simp only [not_or, not_lt] at hfail
  refine ⟨hfail.2.2, ?_⟩
  by_cases hconnect : ¬ env.connect
  · rw [if_pos hconnect] at hopen
    cases hopen
  rw [if_neg hconnect] at hopen
  unfold afIpcUtilInitRequests at hopen
  cases hpool : env.reqPool with
  | false =>
      rw [hpool] at hopen
      simp [pure, Except.pure] at hopen
  | true =>
      rw [hpool, if_pos rfl] at hopen
      dsimp only at hopen
      by_cases herr : env.reqMutex ≠ 0
      · rw [if_pos herr] at hopen
        cases hopen
      rw [if_neg herr] at hopen
      rw [not_not] at herr
      have hw := (Option.some.inj (Except.ok.inj hopen)).symm
      simpa [herr, eventNew] using hw

theorem quiet_of_open {env : OpenEnv} {base : EventBase} {name : CString}
    {receiveCallback : Option Callback} {receiveContext : Context}
    {closeCallback : Option Callback} {w : World}
    (hbase : base.All (fun _ arg => arg ≠ .server))
    (h : afIpccOpenServer env base name receiveCallback receiveContext closeCallback =
      .ok (some w)) :
    Quiet w := by
  obtain ⟨hfd, rfl⟩ := opened_eq h
  refine .inl ⟨⟨_, rfl, hfd, rfl, ?_⟩, rfl, rfl⟩
  have hown : base.All (fun id arg => arg = .server → some base.next = some id) :=
    hbase.mono (fun id arg hne harg => absurd harg hne)
  exact (hown.eventNew (fun _ => rfl)).eventAdd _

/-- **The client's connection outlives its receive loop.**  In a run from a
    successful open in which no callback inside the loop fails a send, whatever
    else the callbacks and the peer do, no step touches the connection after it
    was freed, and it is freed and reported closed at most once. -/
theorem clientRun_safe {env : OpenEnv} {base : EventBase} {name : CString}
    {receiveCallback : Option Callback} {receiveContext : Context}
    {closeCallback : Option Callback} {w₀ : World}
    (hbase : base.All (fun _ arg => arg ≠ .server))
    (hopen : afIpccOpenServer env base name receiveCallback receiveContext closeCallback =
      .ok (some w₀))
    (events : List ClientEvent) (hconf : Conforms clientStep NoFailedSend w₀ events) :
    run clientStep w₀ events ≠ .error .useAfterRelease ∧
      ∀ w, run clientStep w₀ events = .ok w →
        closesOf 0 w.trace ≤ 1 ∧ releasesOf 0 w.trace ≤ 1 := by
  have hsafe := Safe.run_conforms (fun v e hv he => clientStep_quiet hv he)
    (quiet_of_open hbase hopen) hconf
  refine ⟨hsafe.not_error rfl, fun w hw => ?_⟩
  rcases hsafe.of_ok hw with hopen' | hfreed
  · rw [hopen'.closes, hopen'.releases]
    exact ⟨Nat.zero_le 1, Nat.zero_le 1⟩
  · exact ⟨hfreed.closes, Nat.le_of_eq hfreed.releases⟩

/-- A chunk of one frame: the request numbered 1, with the payload 7. -/
def requestChunk : List Byte := (Frame.mk 0x8001 [7]).encode

/-- A response callback that answers and then closes. -/
theorem clientRun_safe_answer_close :
    ∃ w₀, afIpccOpenServer ⟨true, true, 3, true, true, 0, 0⟩ ⟨[], 0⟩ .empty (some 1) 0 (some 2) =
        .ok (some w₀) ∧
      run clientStep w₀ [.recv [.data requestChunk]
        [[.sendResponse 1 [8] 1 .good, .close, .sendUnsolicited [9] 1 .good]]] ≠
          .error .useAfterRelease ∧
      ∀ w, run clientStep w₀ [.recv [.data requestChunk]
        [[.sendResponse 1 [8] 1 .good, .close, .sendUnsolicited [9] 1 .good]]] = .ok w →
          closesOf 0 w.trace ≤ 1 ∧ releasesOf 0 w.trace ≤ 1 := by
  have hempty : EventBase.All (fun _ arg => arg ≠ .server) ⟨[], 0⟩ :=
    fun e he => absurd he List.not_mem_nil
  have hopen : afIpccOpenServer ⟨true, true, 3, true, true, 0, 0⟩ ⟨[], 0⟩ .empty (some 1) 0
      (some 2) = .ok (some _) := rfl
  refine ⟨_, hopen, ?_⟩
  apply clientRun_safe hempty hopen
  refine ⟨fun actions hactions => ?_, fun w' _ => trivial⟩
  rw [List.mem_singleton.mp (List.mem_of_mem_take hactions)]
  decide

/-- The peer is gone when a receive callback answers: the send fails and frees
    the connection, and `on_recv` then clears its flag in freed memory. -/
theorem failedSend_touches_freed :
    ∃ w₀, afIpccOpenServer ⟨true, true, 3, true, true, 0, 0⟩ ⟨[], 0⟩ .empty (some 1) 0 (some 2) =
        .ok (some w₀) ∧
      run clientStep w₀ [.recv [.data requestChunk]
        [[.sendResponse 1 [8] 1 ⟨true, true, 0, false, 32⟩]]] = .error .useAfterRelease :=
  ⟨_, rfl, rfl⟩

end AfIpc.Ipcc
