/-
  AfIpc.Ipcc.Refines

  The client is an endpoint with one connection, or with none once the handle has
  been freed.  Every call of the application is steps of it, whether it is made
  inside the receive loop or outside (`runAction_evolves`).
-/

import AfIpc.Ipc.Correlation
import AfIpc.Ipcc.Lifecycle

namespace AfIpc.Ipcc

open AfIpc.Lib AfIpc.Ipc

-- ============================================================================
-- The client as an endpoint
-- ============================================================================

def Server.conn (s : Server) : Conn := ⟨0, 0, s.event, s.reqControl⟩

/-- What a connection keeps as long as it is open. -/
def Server.handle (s : Server) : Int × Option Callback × Option Callback × Context :=
  (s.fd, s.receiveCallback, s.closeCallback, s.receiveContext)

def World.endpoint (w : World) : Endpoint where
  conns := (w.server.map Server.conn).toList
  lastCid := 0
  base := w.base
  trace := w.trace

/-- The calls of `close_and_free_server`. -/
def closeCalls (status : Int) (s : Server) : List Call :=
  [.shutdown s.fd .rdwr, .closeFd s.fd, .release 0] ++
    if s.closeCallback.isSome then [.closeCallback 0 status 0 s.receiveContext] else []

/-- What `close_and_free_server` leaves. -/
def World.closed (w : World) (status : Int) (s : Server) : World where
  server := none
  base := (afIpcUtilShutdownRequests s.reqControl (eventFreeIf s.event w.base)).2
  script := w.script
  trace := w.trace ++ closeCalls status s

structure Sane (w : World) : Prop where
  sound : Sound w.endpoint
  fd : ∀ s, w.server = some s → 0 ≤ s.fd

/-- What a call does: steps of the endpoint, in which the frames `fs` are taken.
    A connection that is open behind it was so before. -/
structure Evolves (w w' : World) (fs : List (Nat × Frame)) : Prop where
  steps : w.endpoint.Steps w'.endpoint
  taken : takenOf w'.trace = takenOf w.trace ++ fs
  keeps : ∀ s', w'.server = some s' → ∃ s, w.server = some s ∧ s'.handle = s.handle

theorem Evolves.refl (w : World) : Evolves w w [] where
  steps := .refl
  taken := (List.append_nil _).symm
  keeps := fun s hs => ⟨s, hs, rfl⟩

theorem Evolves.trans {w₁ w₂ w₃ : World} {fs gs : List (Nat × Frame)} (h : Evolves w₁ w₂ fs)
    (h' : Evolves w₂ w₃ gs) : Evolves w₁ w₃ (fs ++ gs) where
  steps := h.steps.trans h'.steps
  taken := by rw [h'.taken, h.taken, List.append_assoc]
  keeps := by
    intro s₃ hs₃
    obtain ⟨s₂, hs₂, heq⟩ := h'.keeps s₃ hs₃
    obtain ⟨s₁, hs₁, heq'⟩ := h.keeps s₂ hs₂
    exact ⟨s₁, hs₁, heq.trans heq'⟩

section Connection

variable {w : World} {s : Server}

theorem endpoint_conns (hs : w.server = some s) : w.endpoint.conns = [s.conn] := by
  show (w.server.map Server.conn).toList = _
  rw [hs]
  rfl

theorem conn_mem (hs : w.server = some s) : s.conn ∈ w.endpoint.conns := by
  rw [endpoint_conns hs]
  exact List.mem_singleton_self _

theorem deref_eq (hs : w.server = some s) : w.deref = .ok s := by
  rw [World.deref, hs]

/-- Writing the structure back is writing its connection back. -/
theorem setServer_endpoint (hs : w.server = some s) (s' : Server) :
    (w.setServer s').endpoint = w.endpoint.setConn s'.conn := by
  have hconns := endpoint_conns hs
  rw [World.endpoint] at hconns ⊢
  simp only [Endpoint.setConn]
  rw [World.endpoint, hconns]
  rfl

theorem noteSend_eq (w : World) (fd : Int) (sentBy : SentBy) (packet : Option Packet) (ok : Bool) :
    w.noteSend fd sentBy packet ok =
      { w with trace := w.trace ++ sendCalls 0 fd sentBy packet ok } := by
  cases packet with
  | none =>
      rw [sendCalls, List.append_nil]
      rfl
  | some packet => rfl

theorem takenOf_sendCalls (fd : Int) (sentBy : SentBy) (packet : Option Packet) (ok : Bool) :
    takenOf (sendCalls 0 fd sentBy packet ok) = [] := by
  cases packet <;> rfl

theorem closeCalls_closing (status : Int) (s : Server) :
    ∀ call ∈ closeCalls status s, call.closing 0 = true := by
  unfold closeCalls
  split_ifs <;> simp [Call.closing, Call.inert]

theorem closeCalls_closes (status : Int) (s : Server) :
    closesOf 0 (closeCalls status s) = if s.closeCallback.isSome then 1 else 0 := by
  unfold closeCalls
  split_ifs <;> simp [closesOf, Call.isClose]

theorem closeCalls_releases (status : Int) (s : Server) :
    releasesOf 0 (closeCalls status s) = 1 := by
  unfold closeCalls
  split_ifs <;> simp [releasesOf, Call.isRelease]

theorem takenOf_closeCalls (status : Int) (s : Server) : takenOf (closeCalls status s) = [] := by
  unfold closeCalls
  split_ifs <;> rfl

/-- `close_and_free_server` on an open connection. -/
theorem closeAndFreeServer_eq (hs : w.server = some s) (hfd : 0 ≤ s.fd) (status : Int) :
    closeAndFreeServer status w = .ok (w.closed status s) := by
  have hne : s.fd ≠ -1 := by omega
  simp only [closeAndFreeServer, deref_eq hs, bind, Except.bind]
  rw [if_pos hne]
  cases hcb : s.closeCallback with
  | none =>
      rw [World.closed, closeCalls, hcb]
      simp [World.note, World.setBase, pure, Except.pure]
  | some cb =>
      rw [World.closed, closeCalls, hcb]
      simp [World.note, World.setBase, pure, Except.pure]

theorem closed_endpoint (hs : w.server = some s) (status : Int) :
    (w.closed status s).endpoint =
      ((w.endpoint.without 0).setBase
        (afIpcUtilShutdownRequests s.reqControl (eventFreeIf s.event w.base)).2).note
          (closeCalls status s) := by
  have hnone : (w.endpoint.without 0).conns = [] := by
    simp only [Endpoint.without, endpoint_conns hs]
    rfl
  rw [World.endpoint, Endpoint.note, Endpoint.setBase, hnone]
  rfl

theorem closed_spec (hw : Sane w) (hs : w.server = some s) (status : Int) :
    Sane (w.closed status s) ∧ Evolves w (w.closed status s) [] := by
  have hsteps : w.endpoint.Steps (w.closed status s).endpoint := by
    rw [closed_endpoint hs]
    refine .single (.close (conn_mem hs) (closeCalls_closing status s) ?_
      (closeCalls_releases status s))
    show closesOf 0 _ ≤ 1
    rw [closeCalls_closes]
    split_ifs <;> omega
  refine ⟨⟨hsteps.sound hw.sound, fun s' hs' => by cases hs'⟩, ⟨hsteps, ?_, fun s' hs' => by cases hs'⟩⟩
  show takenOf (w.trace ++ closeCalls status s) = _
  rw [takenOf_append, takenOf_closeCalls]

/-- Writing back what the endpoint does not see. -/
theorem setServer_spec (hw : Sane w) (hs : w.server = some s) {s' : Server}
    (hconn : s'.conn = s.conn) (hhandle : s'.handle = s.handle) :
    Sane (w.setServer s') ∧ Evolves w (w.setServer s') [] := by
  have hendpoint : (w.setServer s').endpoint = w.endpoint := by
    rw [setServer_endpoint hs, hconn]
    exact hw.sound.lives.setConn_eq (conn_mem hs)
  refine ⟨⟨?_, ?_⟩, ⟨?_, (List.append_nil _).symm, ?_⟩⟩
  · rw [hendpoint]
    exact hw.sound
  · intro t ht
    obtain rfl := Option.some.inj ht
    have hfd : s'.fd = s.fd := congrArg Prod.fst hhandle
    rw [hfd]
    exact hw.fd s hs
  · rw [hendpoint]
  · intro t ht
    obtain rfl := Option.some.inj ht
    exact ⟨s, hs, hhandle⟩

end Connection

-- ============================================================================
-- Calls of the application
-- ============================================================================

section Calls

variable {w : World} {s : Server}

/-- What a call leaves. -/
def Called (w w' : World) : Prop := Sane w' ∧ Evolves w w' [] ∧ w'.script = w.script

/-- The client behind a send. -/
theorem sent_endpoint (hs : w.server = some s) (sentBy : SentBy) (r : SendResult) (ok : Bool) :
    (((w.setServer { s with reqControl := r.rc.getD s.reqControl }).setBase r.base).noteSend s.fd
        sentBy r.packet ok).endpoint =
      ((w.endpoint.setConn { s.conn with table := r.rc.getD s.conn.table }).setBase r.base).note
        (sendCalls 0 s.fd sentBy r.packet ok) := by
  have hset := setServer_endpoint hs { s with reqControl := r.rc.getD s.reqControl }
  rw [noteSend_eq]
  exact congrArg (fun h : Endpoint =>
    (h.setBase r.base).note (sendCalls 0 s.fd sentBy r.packet ok)) hset

/-- A send ends in a step, or in the end of the connection. -/
theorem sendOrClose_evolves (hw : Sane w) (hs : w.server = some s) (sentBy : SentBy)
    {rc : Option ReqControl} {seqNum : BitVec 32} {txBuffer : List Byte} {txBufferSize : Int}
    {callback : Option Callback} {context : Context} {timeoutMs : Int} {env : SendEnv}
    {r : SendResult} (hrc : rc = none ∨ rc = some s.reqControl)
    (hplain : sentBy ≠ .response → seqNum = 0)
    (hreq : 0 < timeoutMs → sentBy = .request callback context)
    (hr : r = afIpcSend rc w.base seqNum txBuffer txBufferSize callback context timeoutMs env) :
    ∃ out, sendOrClose { s with reqControl := r.rc.getD s.reqControl } sentBy r env w = .ok out ∧
      Called w out.2 := by
  have hret := @afIpcSend_ret rc w.base seqNum txBuffer txBufferSize callback context timeoutMs env
  rw [← hr] at hret
  have hendpoint := sent_endpoint hs sentBy r env.sendmsg
  have hserver : (((w.setServer { s with reqControl := r.rc.getD s.reqControl }).setBase
      r.base).noteSend s.fd sentBy r.packet env.sendmsg).server =
      some { s with reqControl := r.rc.getD s.reqControl } := by
    rw [noteSend_eq]
    rfl
  have htaken : takenOf (((w.setServer { s with reqControl := r.rc.getD s.reqControl }).setBase
      r.base).noteSend s.fd sentBy r.packet env.sendmsg).trace = takenOf w.trace ++ [] := by
    rw [noteSend_eq]
    show takenOf (w.trace ++ _) = _
    rw [takenOf_append, takenOf_sendCalls]
  simp only [sendOrClose]
  cases hsucc : sendSucceeds rc txBufferSize timeoutMs env with
  | true =>
      have hok : ¬ r.ret < 0 := by
        rw [hret, if_pos hsucc]
        omega
      have hsteps : w.endpoint.Steps _ := .single (afIpcSend_step s.fd hw.sound.lives
        (conn_mem hs) hrc hplain (fun _ => Or.inr rfl) hreq hsucc hr)
      rw [if_neg hok]
      refine ⟨_, rfl, ⟨?_, ?_⟩, ⟨?_, htaken, ?_⟩, noteSend_script _ _ _ _⟩
      · rw [hendpoint]
        exact hsteps.sound hw.sound
      · intro t ht
        rw [hserver] at ht
        obtain rfl := Option.some.inj ht
        exact hw.fd s hs
      · rw [hendpoint]
        exact hsteps
      · intro t ht
        rw [hserver] at ht
        obtain rfl := Option.some.inj ht
        exact ⟨s, hs, rfl⟩
  | false =>
      have hfail : r.ret < 0 := by
        rw [hret, hsucc]
        decide
      have hfd : 0 ≤ ({ s with reqControl := r.rc.getD s.reqControl } : Server).fd := hw.fd s hs
      have hclose := closeAndFreeServer_eq hserver hfd statusError
      have hsteps := afIpcSend_close_steps s.fd sentBy hw.sound.lives (conn_mem hs) hrc hsucc hr
        (closeCalls_closing statusError s) ?_ (closeCalls_releases statusError s)
      · rw [if_pos hfail]
        simp only [hclose, bind, Except.bind]
        have hclosed : w.endpoint.Steps (((((w.setServer { s with
            reqControl := r.rc.getD s.reqControl }).setBase r.base).noteSend s.fd sentBy r.packet
            env.sendmsg).closed statusError
            { s with reqControl := r.rc.getD s.reqControl }).endpoint) := by
          have hwithout := setConn_without w.endpoint { s.conn with table := r.rc.getD s.conn.table }
          rw [← note_note, ← hwithout] at hsteps
          rw [closed_endpoint hserver, hendpoint]
          have hbase : (((w.setServer { s with reqControl := r.rc.getD s.reqControl }).setBase
              r.base).noteSend s.fd sentBy r.packet env.sendmsg).base = r.base := by
            rw [noteSend_eq]
            rfl
          rw [hbase]
          exact hsteps
        refine ⟨_, rfl, ⟨hclosed.sound hw.sound, fun t ht => by cases ht⟩,
          ⟨hclosed, ?_, fun t ht => by cases ht⟩, noteSend_script _ _ _ _⟩
        show takenOf (_ ++ closeCalls statusError _) = _
        rw [takenOf_append, takenOf_closeCalls, htaken, List.append_nil]
      · show closesOf 0 _ ≤ 1
        rw [closeCalls_closes]
        split_ifs <;> omega

/-- **A call of the application** returns, in whatever state it is made. -/
theorem runAction_evolves (hw : Sane w) (a : Action) :
    ∃ w', runAction w a = .ok w' ∧ Called w w' := by
  cases hserver : w.server with
  | none =>
      refine ⟨w, ?_, hw, .refl w, rfl⟩
      simp only [runAction]
      rw [if_pos (by rw [hserver]; rfl)]
  | some s =>
      have hsome : ¬ w.server.isNone = true := by
        rw [hserver]
        exact Bool.false_ne_true
      have hfd : ¬ s.fd < 0 := not_lt.mpr (hw.fd s hserver)
      simp only [runAction]
      rw [if_neg hsome]
      cases a with
      | sendRequest txBuffer txBufferSize callback context timeoutMs env =>
          obtain ⟨out, hout, hcalled⟩ := sendOrClose_evolves hw hserver
            (.request callback context) (.inr rfl) (fun _ => rfl) (fun _ => rfl)
            (rfl : afIpcSend (some s.reqControl) w.base 0 txBuffer txBufferSize callback context
              timeoutMs env = _)
          simp only [afIpccSendRequest, deref_eq hserver, bind, Except.bind]
          rw [if_neg hfd, hout]
          exact ⟨_, rfl, hcalled⟩
      | sendResponse seqNum txBuffer txBufferSize env =>
          obtain ⟨out, hout, hcalled⟩ := sendOrClose_evolves hw hserver .response
            (.inl rfl) (fun hne => absurd rfl hne) (fun ht => absurd ht (by decide))
            (rfl : afIpcSend none w.base seqNum txBuffer txBufferSize none 0 0 env = _)
          obtain ⟨hrc, -⟩ := @afIpcSend_none w.base seqNum txBuffer txBufferSize none 0 0 env
          rw [hrc] at hout
          simp only [afIpccSendResponse, deref_eq hserver, bind, Except.bind]
          rw [if_neg hfd]
          have hout' : sendOrClose s .response (afIpcSend none w.base seqNum txBuffer txBufferSize
            none 0 0 env) env w = .ok out := hout
          rw [hout']
          exact ⟨_, rfl, hcalled⟩
      | sendUnsolicited txBuffer txBufferSize env =>
          obtain ⟨out, hout, hcalled⟩ := sendOrClose_evolves hw hserver .unsolicited
            (.inl rfl) (fun _ => rfl) (fun ht => absurd ht (by decide))
            (rfl : afIpcSend none w.base 0 txBuffer txBufferSize none 0 0 env = _)
          obtain ⟨hrc, -⟩ := @afIpcSend_none w.base 0 txBuffer txBufferSize none 0 0 env
          rw [hrc] at hout
          simp only [afIpccSendUnsolicited, deref_eq hserver, bind, Except.bind]
          rw [if_neg hfd]
          have hout' : sendOrClose s .unsolicited (afIpcSend none w.base 0 txBuffer txBufferSize
            none 0 0 env) env w = .ok out := hout
          rw [hout']
          exact ⟨_, rfl, hcalled⟩
      | close =>
          simp only [afIpccClose, deref_eq hserver, bind, Except.bind]
          by_cases hin : s.flags &&& flagsInReceive ≠ 0
          · -- only the mark
            rw [if_pos hin]
            have hconn : ({ s with flags := s.flags ||| flagsMarkedForShutdown } : Server).conn =
                s.conn := rfl
            obtain ⟨hsane, hevolves⟩ := setServer_spec hw hserver hconn rfl
            exact ⟨_, rfl, hsane, hevolves, rfl⟩
          · rw [if_neg hin, closeAndFreeServer_eq hserver (hw.fd s hserver)]
            obtain ⟨hsane, hevolves⟩ := closed_spec hw hserver statusOk
            exact ⟨_, rfl, hsane, hevolves, rfl⟩

theorem runActions_evolves (hw : Sane w) (actions : List Action) :
    ∃ w', run runAction w actions = .ok w' ∧ Called w w' := by
  induction actions generalizing w with
  | nil => exact ⟨w, rfl, hw, .refl w, rfl⟩
  | cons a actions ih =>
      obtain ⟨v, hv, hsane, hevolves, hscript⟩ := runAction_evolves hw a
      obtain ⟨w', hw', hsane', hevolves', hscript'⟩ := ih hsane
      refine ⟨w', ?_, hsane', hevolves.trans hevolves', hscript'.trans hscript⟩
      rw [run_cons, hv]
      exact hw'

theorem runCallback_evolves (hw : Sane w) :
    ∃ w', runCallback w = .ok w' ∧ Sane w' ∧ Evolves w w' [] ∧ w'.script = w.script.tail := by
  unfold runCallback
  cases hscript : w.script with
  | nil => exact ⟨w, rfl, hw, .refl w, hscript⟩
  | cons actions script =>
      have hstart : Sane { w with script := script } := ⟨hw.sound, hw.fd⟩
      obtain ⟨w', hw', hsane, hevolves, hscript'⟩ := runActions_evolves hstart actions
      exact ⟨w', hw', hsane, ⟨hevolves.steps, hevolves.taken, hevolves.keeps⟩, hscript'⟩

end Calls

-- ============================================================================
-- One frame
-- ============================================================================

/-- A request has left the table, and `calls` have been made. -/
def World.completed (w : World) (s : Server) (rc : ReqControl) (base : EventBase)
    (calls : List Call) : World :=
  { (w.setServer { s with reqControl := rc }).setBase base with trace := w.trace ++ calls }

/-- What `af_ipc_handle_receive_message` comes to for the frame `f`, on the open
    connection `s`. -/
inductive Dispatched (callback : Option Callback) (context : Context) (f : Frame) (w : World)
    (s : Server) : Except Fault World → Prop
  | unheard (hnew : f.IsNew) (hcb : callback = none) :
      Dispatched callback context f w s (.ok (w.note (.frame 0 f)))
  | received (hnew : f.IsNew) (hcb : callback ≠ none) :
      Dispatched callback context f w s (runCallback ((w.note (.frame 0 f)).note
        (.receiveCallback 0 (deliveredSeqNum 0 (getSeqId f.seqNum)) f.payload context)))
  | unmatched (hold : ¬ f.IsNew)
      (hnone : ∀ r ∈ s.reqControl.pendingRequests, r.seqNum ≠ getSeqId f.seqNum) :
      Dispatched callback context f w s (.ok (w.note (.frame 0 f)))
  | uncalled {req : Request} {rc : ReqControl} {base : EventBase} (hold : ¬ f.IsNew)
      (htake : takeResponse (getSeqId f.seqNum) s.reqControl w.base = (some req, rc, base))
      (hcb : req.responseCallback = none) :
      Dispatched callback context f w s (.ok (w.completed s rc base [.frame 0 f]))
  | responded {req : Request} {rc : ReqControl} {base : EventBase} (hold : ¬ f.IsNew)
      (htake : takeResponse (getSeqId f.seqNum) s.reqControl w.base = (some req, rc, base))
      (hcb : req.responseCallback ≠ none) :
      Dispatched callback context f w s (runCallback (w.completed s rc base
        [.frame 0 f, .responseCallback 0 req statusOk (getSeqId f.seqNum) f.payload]))

section Frames

variable {w : World} {s : Server}

theorem handleFrame_dispatched (hs : w.server = some s) (callback : Option Callback)
    (context : Context) (f : Frame) :
    Dispatched callback context f w s (handleFrame (receiver callback context) f w) := by
  have hderef : (w.note (.frame 0 f)).deref = .ok s := deref_eq hs
  simp only [handleFrame, receiver]
  by_cases hnew : f.IsNew
  · have hif : getSeqId f.seqNum = 0 ∨ isNewRequest (getSeqId f.seqNum) = true := hnew
    rw [if_pos hif]
    cases callback with
    | none => exact .unheard hnew rfl
    | some cb =>
        refine .received hnew ?_
        intro hnone
        cases hnone
  · have hif : ¬ (getSeqId f.seqNum = 0 ∨ isNewRequest (getSeqId f.seqNum) = true) := hnew
    rw [if_neg hif]
    simp only [hderef, bind, Except.bind, pure, Except.pure]
    cases htake : takeResponse (getSeqId f.seqNum) s.reqControl (w.note (.frame 0 f)).base with
    | mk found rest =>
        obtain ⟨rc, base⟩ := rest
        cases found with
        | none => exact .unmatched hnew (takeResponse_unmatched htake)
        | some req =>
            dsimp only
            cases hcb : req.responseCallback with
            | none => exact .uncalled hnew htake hcb
            | some cb =>
                have htrace : (((w.note (.frame 0 f)).setServer { s with reqControl := rc }).setBase
                    base).note (.responseCallback 0 req statusOk (getSeqId f.seqNum) f.payload) =
                    w.completed s rc base
                      [.frame 0 f, .responseCallback 0 req statusOk (getSeqId f.seqNum) f.payload] := by
                  rw [World.completed, World.note, World.note]
                  simp only [World.setServer, World.setBase, List.append_assoc]
                  rfl
                dsimp only
                rw [htrace]
                refine .responded hnew htake ?_
                rw [hcb]
                intro hnone
                cases hnone

theorem completed_endpoint (hs : w.server = some s) (rc : ReqControl) (base : EventBase)
    (calls : List Call) : (w.completed s rc base calls).endpoint =
      ((w.endpoint.setConn { s.conn with table := rc }).setBase base).note calls :=
  congrArg (fun h : Endpoint => (h.setBase base).note calls)
    (setServer_endpoint hs { s with reqControl := rc })

/-- A frame that the endpoint takes in one step. -/
theorem Evolves.of_step (hw : Sane w) {v : World} {fs : List (Nat × Frame)}
    (hstep : w.endpoint.Step v.endpoint) (htaken : takenOf v.trace = takenOf w.trace ++ fs)
    (hkeeps : ∀ s', v.server = some s' → ∃ s, w.server = some s ∧ s'.handle = s.handle) :
    Sane v ∧ Evolves w v fs := by
  have hsteps : w.endpoint.Steps v.endpoint := .single hstep
  refine ⟨⟨hsteps.sound hw.sound, fun s' hs' => ?_⟩, ⟨hsteps, htaken, hkeeps⟩⟩
  obtain ⟨s, hs, heq⟩ := hkeeps s' hs'
  have hfd : s'.fd = s.fd := congrArg Prod.fst heq
  rw [hfd]
  exact hw.fd s hs

theorem skip_evolves (hw : Sane w) (hs : w.server = some s) {f : Frame}
    (hskip : f.IsNew ∨ ∀ r ∈ s.reqControl.pendingRequests, r.seqNum ≠ getSeqId f.seqNum) :
    Sane (w.note (.frame 0 f)) ∧ Evolves w (w.note (.frame 0 f)) [(0, f)] := by
  refine Evolves.of_step hw (.skip (conn_mem hs) hskip) (takenOf_append _ _) ?_
  exact fun s' hs' => ⟨s', hs', rfl⟩

theorem deliver_evolves (hw : Sane w) (hs : w.server = some s) {f : Frame} (hnew : f.IsNew)
    (context : Context) :
    Sane ((w.note (.frame 0 f)).note (.receiveCallback 0 (deliveredSeqNum 0 (getSeqId f.seqNum))
        f.payload context)) ∧
      Evolves w ((w.note (.frame 0 f)).note (.receiveCallback 0
        (deliveredSeqNum 0 (getSeqId f.seqNum)) f.payload context)) [(0, f)] := by
  refine Evolves.of_step hw ?_ ?_ (fun s' hs' => ⟨s', hs', rfl⟩)
  · have hdeliver := @Endpoint.Step.deliver w.endpoint s.conn f context (conn_mem hs) hnew
    rw [← List.singleton_append, ← note_note] at hdeliver
    exact hdeliver
  · show takenOf ((w.trace ++ [_]) ++ [_]) = _
    rw [takenOf_append, takenOf_append]
    exact List.append_nil _

theorem completed_keeps (hs : w.server = some s) (rc : ReqControl) (base : EventBase)
    (calls : List Call) : ∀ s', (w.completed s rc base calls).server = some s' →
      ∃ s, w.server = some s ∧ s'.handle = s.handle := by
  intro s' hs'
  obtain rfl := Option.some.inj hs'
  exact ⟨s, hs, rfl⟩

theorem complete_evolves (hw : Sane w) (hs : w.server = some s) {f : Frame} {req : Request}
    {rc : ReqControl} {base : EventBase} {calls : List Call} (hold : ¬ f.IsNew)
    (htake : takeResponse (getSeqId f.seqNum) s.reqControl w.base = (some req, rc, base))
    (hcalls : calls = [] ∨ calls = [.responseCallback 0 req statusOk (getSeqId f.seqNum) f.payload])
    (hheard : calls = [] → req.responseCallback = none) :
    Sane (w.completed s rc base (.frame 0 f :: calls)) ∧
      Evolves w (w.completed s rc base (.frame 0 f :: calls)) [(0, f)] := by
  refine Evolves.of_step hw ?_ ?_ (completed_keeps hs rc base _)
  · rw [completed_endpoint hs]
    exact .complete (conn_mem hs) hold htake hcalls hheard
  · show takenOf (w.trace ++ _) = _
    rw [takenOf_append]
    rcases hcalls with rfl | rfl <;> rfl

end Frames

-- ============================================================================
-- The receive loop
-- ============================================================================

/-- No call of the script closes the connection or fails to send. -/
def Spares (script : List (List Action)) : Prop :=
  ∀ actions ∈ script, ∀ a ∈ actions, a ≠ .close ∧ a.fails = false

theorem Spares.take {script : List (List Action)} {m n : Nat} (h : Spares (script.take n))
    (hle : m ≤ n) : Spares (script.take m) :=
  fun actions hactions => h actions (List.take_subset_take_left script hle hactions)

/-- What is left for the callbacks behind one that was called. -/
theorem Spares.tail {script : List (List Action)} {n : Nat} (h : Spares (script.take (n + 1))) :
    Spares (script.tail.take n) :=
  fun actions hactions => h actions (mem_take_of_mem_tail hactions)

/-- The flags inside the receive loop; if `S` holds they are not marked. -/
def LoopFlags (S : Prop) (f : BitVec 16) : Prop := ReceivingFlags f ∧ (S → f = flagsInReceive)

/-- Inside the receive loop, which was entered in `w₀`, has taken `fs` and has `n`
    frames to come: the connection is open, or a send that failed has freed it.  `S` says
    that the callbacks of these frames spare it. -/
inductive Served (S : Prop) (n : Nat) (w₀ : World) (fs : List Frame) (w : World) : Prop
  | live (sane : Sane w) (alive : OpenWith (LoopFlags S) w) (script : S → Spares (w.script.take n))
      (evolves : Evolves w₀ w (fs.map (Prod.mk 0)))
  | freed (hs : ¬ S) (server : w.server = none)

section Receive

variable {w w₀ : World} {S : Prop} {n : Nat} {fs : List Frame}

theorem runAction_loop (h : OpenWith (LoopFlags S) w ∨ ¬ S ∧ w.server = none) {a : Action}
    (ha : S → a ≠ .close ∧ a.fails = false) {w' : World} (hrun : runAction w a = .ok w') :
    OpenWith (LoopFlags S) w' ∨ ¬ S ∧ w'.server = none := by
  rcases h with hopen | ⟨hs, hnone⟩
  · by_cases hclose : a = .close
    · have hs : ¬ S := fun hs => (ha hs).1 hclose
      subst hclose
      obtain ⟨s, hserver, -⟩ := hopen.server
      have hsome : ¬ w.server.isNone = true := by
        rw [hserver]
        exact Bool.false_ne_true
      obtain ⟨v, hv, halive, -⟩ := afIpccClose_receiving (hopen.mono (fun _ hf => hf.1))
      simp only [runAction] at hrun
      rw [if_neg hsome, hv] at hrun
      obtain rfl := Except.ok.inj hrun
      exact Or.inl (halive.mono (fun f hf => ⟨hf, fun h => absurd h hs⟩))
    · obtain ⟨v, hv, hfree, hkeep⟩ := runAction_send hopen hclose
      obtain rfl : w' = v := Except.ok.inj (hrun.symm.trans hv)
      cases hf : a.fails with
      | true =>
          refine Or.inr ⟨fun hs => ?_, (hfree hf).server⟩
          rw [(ha hs).2] at hf
          cases hf
      | false => exact Or.inl (hkeep hf).1
  · simp only [runAction] at hrun
    rw [if_pos (by rw [hnone]; rfl)] at hrun
    obtain rfl := Except.ok.inj hrun
    exact Or.inr ⟨hs, hnone⟩

theorem runActions_loop (h : OpenWith (LoopFlags S) w ∨ ¬ S ∧ w.server = none)
    {actions : List Action} (ha : S → ∀ a ∈ actions, a ≠ .close ∧ a.fails = false) {w' : World}
    (hrun : run runAction w actions = .ok w') :
    OpenWith (LoopFlags S) w' ∨ ¬ S ∧ w'.server = none := by
  induction actions generalizing w with
  | nil =>
      obtain rfl := Except.ok.inj hrun
      exact h
  | cons a actions ih =>
      rw [run_cons, bind_eq_ok] at hrun
      obtain ⟨v, hv, hrest⟩ := hrun
      have hone := runAction_loop h (fun hs => ha hs a List.mem_cons_self) hv
      exact ih hone (fun hs b hb => ha hs b (List.mem_cons_of_mem a hb)) hrest

theorem runCallback_loop (h : OpenWith (LoopFlags S) w ∨ ¬ S ∧ w.server = none)
    (hscript : S → Spares (w.script.take 1)) {w' : World} (hrun : runCallback w = .ok w') :
    OpenWith (LoopFlags S) w' ∨ ¬ S ∧ w'.server = none := by
  unfold runCallback at hrun
  split at hrun
  · obtain rfl := Except.ok.inj hrun
    exact h
  · rename_i actions script heq
    refine runActions_loop ?_ (fun hs a ha => ?_) hrun
    · rcases h with hopen | hfreed
      · exact Or.inl ⟨hopen.server, hopen.closes, hopen.releases⟩
      · exact Or.inr hfreed
    · refine hscript hs actions ?_ a ha
      rw [heq]
      exact List.mem_cons_self

theorem OpenWith.completed {F : BitVec 16 → Prop} (h : OpenWith F w) {s : Server}
    (hs : w.server = some s) {seqNum : BitVec 32} {found : Option Request} {rc : ReqControl}
    {base : EventBase} (htake : takeResponse seqNum s.reqControl w.base = (found, rc, base))
    {calls : List Call} (hcloses : closesOf 0 calls = 0) (hreleases : releasesOf 0 calls = 0) :
    OpenWith F (w.completed s rc base calls) := by
  obtain ⟨t, ht, hfd, hF, hbase⟩ := h.server
  obtain rfl : s = t := Option.some.inj (hs.symm.trans ht)
  refine ⟨⟨_, rfl, hfd, hF, hbase.taken htake⟩, ?_, ?_⟩
  · show closesOf 0 (w.trace ++ calls) = 0
    rw [closesOf_append, h.closes, hcloses]
  · show releasesOf 0 (w.trace ++ calls) = 0
    rw [releasesOf_append, h.releases, hreleases]

/-- The callback of a frame that has been taken. -/
theorem Served.callback (hsane : Sane w) (halive : OpenWith (LoopFlags S) w)
    (hscript : S → Spares (w.script.take (n + 1)))
    (hevolves : Evolves w₀ w (fs.map (Prod.mk 0))) :
    Safe (fun _ => S) (Served S n w₀ fs) (runCallback w) := by
  obtain ⟨w', hw', hsane', hcalls, htail⟩ := runCallback_evolves hsane
  have hloop := runCallback_loop (Or.inl halive)
    (fun hs => (hscript hs).take (Nat.succ_le_succ (Nat.zero_le n))) hw'
  rw [hw']
  rcases hloop with halive' | ⟨hs, hnone⟩
  · refine .live hsane' halive' (fun hs => ?_) ?_
    · rw [htail]
      exact (hscript hs).tail
    · have hall := hevolves.trans hcalls
      rw [List.append_nil] at hall
      exact hall
  · exact .freed hs hnone

/-- On a freed handle no callback makes a call. -/
theorem runActions_freed (hnone : w.server = none) (actions : List Action) :
    run runAction w actions = .ok w := by
  induction actions with
  | nil => rfl
  | cons a actions ih =>
      have hone : runAction w a = .ok w := by
        simp only [runAction]
        rw [if_pos (by rw [hnone]; rfl)]
      rw [run_cons, hone]
      exact ih

theorem runCallback_freed (hnone : w.server = none) :
    ∃ w', runCallback w = .ok w' ∧ w'.server = none := by
  unfold runCallback
  split
  · exact ⟨w, rfl, hnone⟩
  · rename_i actions script _
    have hfreed : World.server { w with script := script } = none := hnone
    exact ⟨_, runActions_freed hfreed actions, hnone⟩

theorem handleFrame_freed (hnone : w.server = none) (callback : Option Callback)
    (context : Context) (f : Frame) {w' : World}
    (hrun : handleFrame (receiver callback context) f w = .ok w') : w'.server = none := by
  have hnoted : (w.note (.frame 0 f)).server = none := hnone
  have hderef : (w.note (.frame 0 f)).deref = .error .useAfterRelease := by
    rw [World.deref, hnoted]
  simp only [handleFrame, receiver] at hrun
  split_ifs at hrun
  · cases callback with
    | none =>
        obtain rfl := Except.ok.inj hrun
        exact hnone
    | some cb =>
        obtain ⟨v, hv, hserver⟩ := @runCallback_freed ((w.note (.frame 0 f)).note
          (.receiveCallback 0 (deliveredSeqNum 0 (getSeqId f.seqNum)) f.payload context)) hnone
        obtain rfl : w' = v := Except.ok.inj (hrun.symm.trans hv)
        exact hserver
  · simp only [hderef, bind, Except.bind] at hrun
    cases hrun

/-- **One frame** leaves the connection open, or it is freed for good. -/
theorem handleFrame_served (h : Served S (n + 1) w₀ fs w) (callback : Option Callback)
    (context : Context) (f : Frame) :
    Safe (fun _ => S) (Served S n w₀ (fs ++ [f]))
      (handleFrame (receiver callback context) f w) := by
  cases h with
  | live hsane halive hscript hevolves =>
      obtain ⟨s, hs, -⟩ := halive.server
      have hless := fun hs => (hscript hs).take (Nat.le_succ n)
      have hdispatched := handleFrame_dispatched hs callback context f
      have hgrown : ∀ v, Evolves w v [(0, f)] →
          Evolves w₀ v ((fs ++ [f]).map (Prod.mk 0)) := by
        intro v hv
        rw [List.map_append]
        exact hevolves.trans hv
      generalize handleFrame (receiver callback context) f w = out at hdispatched
      cases hdispatched with
      | unheard hnew hcb =>
          obtain ⟨hsane', hskip⟩ := skip_evolves hsane hs (.inl hnew)
          exact .live hsane' (halive.note rfl rfl) hless (hgrown _ hskip)
      | received hnew hcb =>
          obtain ⟨hsane', hdeliver⟩ := deliver_evolves hsane hs hnew context
          exact Served.callback hsane' ((halive.note rfl rfl).note rfl rfl) hscript
            (hgrown _ hdeliver)
      | unmatched hold hnone =>
          obtain ⟨hsane', hskip⟩ := skip_evolves hsane hs (.inr hnone)
          exact .live hsane' (halive.note rfl rfl) hless (hgrown _ hskip)
      | uncalled hold htake hcb =>
          obtain ⟨hsane', hcomplete⟩ := complete_evolves hsane hs hold htake (.inl rfl)
            (fun _ => hcb)
          exact .live hsane' (halive.completed hs htake rfl rfl) hless (hgrown _ hcomplete)
      | responded hold htake hcb =>
          obtain ⟨hsane', hcomplete⟩ := complete_evolves hsane hs hold htake (.inr rfl)
            (fun hnil => by cases hnil)
          exact Served.callback hsane' (halive.completed hs htake rfl rfl) hscript
            (hgrown _ hcomplete)
  | freed hs hnone =>
      cases hrun : handleFrame (receiver callback context) f w with
      | error e => exact hs
      | ok w' => exact .freed hs (handleFrame_freed hnone callback context f hrun)

/-- Frames, one after the other. -/
theorem handleFrames_served (callback : Option Callback) (context : Context) (gs : List Frame)
    (h : Served S (gs.length + n) w₀ fs w) :
    Safe (fun _ => S) (Served S n w₀ (fs ++ gs))
      (run (fun w f => handleFrame (receiver callback context) f w) w gs) := by
  induction gs generalizing w fs with
  | nil =>
      rw [List.length_nil, Nat.zero_add] at h
      rw [List.append_nil]
      exact h
  | cons g gs ih =>
      rw [List.length_cons, Nat.add_right_comm] at h
      refine (handleFrame_served h callback context g).bind (fun v hv => ?_)
      have hrest := ih hv
      rw [List.append_assoc] at hrest
      exact hrest

/-- The frames of a chunk. -/
theorem handleMessage_served (callback : Option Callback) (context : Context) (bytes : List Byte)
    (h : Served S ((frames.items bytes).length + n) w₀ fs w) :
    Safe (fun _ => S) (Served S n w₀ (fs ++ frames.items bytes))
      (afIpcHandleReceiveMessage (receiver callback context) bytes w) := by
  rw [afIpcHandleReceiveMessage_eq]
  exact handleFrames_served callback context (frames.items bytes) h

/-- What the receive loop leaves: it has taken the frames of the chunks, unless a
    callback has closed the connection, which is open if nothing else has been
    received. -/
structure Received (S : Prop) (w : World) (results : List RecvResult) (w' : World) : Prop where
  quiet : Quiet w'
  sane : Sane w'
  alive : S → OnlyData results → OpenWith (fun f => f = 0) w'
  evolves : ∃ fs, Evolves w w' (fs.map (Prod.mk 0)) ∧
    (S → fs = (chunksOf results).flatMap frames.items)

theorem closed_received (hsane : Sane w) (halive : OpenWith (fun f => f = 0) w) (status : Int)
    {results : List RecvResult} (hnone : chunksOf results = []) (hmore : ¬ OnlyData results) :
    Safe (fun _ => S) (Received S w results) (closeAndFreeServer status w) := by
  obtain ⟨s, hs, hfd, -⟩ := halive.server
  obtain ⟨v, hv, hfreed⟩ := closeAndFreeServer_freed halive status
  have heq := closeAndFreeServer_eq hs hfd status
  obtain ⟨hsane', hevolves⟩ := closed_spec hsane hs status
  rw [heq]
  obtain rfl : v = w.closed status s := Except.ok.inj (hv.symm.trans heq)
  refine ⟨Or.inr hfreed, hsane', fun _ hdata => absurd hdata hmore, [], hevolves, fun _ => ?_⟩
  rw [hnone]
  rfl

/-- **The receive loop** of an open connection: unless a callback ends the
    connection it returns, and has taken the frames of the chunks. -/
theorem onRecv_spec (hsane : Sane w) (halive : OpenWith (fun f => f = 0) w)
    (results : List RecvResult) (hscript : S → Spares (entriesFor results w.script)) :
    Safe (fun _ => S) (Received S w results) (afIpccClientOnRecv results w) := by
  have hidle : ∀ v : World, OpenWith (fun f => f = 0) v → Sane v → ∀ rs : List RecvResult,
      chunksOf rs = [] → Received S v rs v := by
    intro v hopen hv rs hnone
    refine ⟨Or.inl hopen, hv, fun _ _ => hopen, [], .refl v, fun _ => ?_⟩
    rw [hnone]
    rfl
  have hmore : ∀ (r : RecvResult) (rs : List RecvResult), (∀ bytes, r ≠ .data bytes) →
      ¬ OnlyData (r :: rs) := by
    intro r rs hne hdata
    obtain ⟨bytes, hbytes⟩ := hdata r List.mem_cons_self
    exact hne bytes hbytes
  induction results generalizing w with
  | nil => exact hidle w halive hsane [] rfl
  | cons r rs ih =>
      cases r with
      | eof => exact closed_received hsane halive statusError rfl (hmore _ rs (by simp))
      | error e =>
          simp only [afIpccClientOnRecv, recvLoop]
          split_ifs
          · exact hidle w halive hsane _ rfl
          · exact closed_received hsane halive statusError rfl (hmore _ rs (by simp))
      | data bytes =>
          obtain ⟨s, hs, hfd, hF, hbase⟩ := halive.server
          have hentered : OpenWith (LoopFlags S)
              (w.setServer { s with flags := s.flags ||| flagsInReceive }) := by
            refine halive.update hfd ?_ hbase
            show LoopFlags S (s.flags ||| flagsInReceive)
            rw [hF]
            exact ⟨Or.inl rfl, fun _ => rfl⟩
          have hconn : ({ s with flags := s.flags ||| flagsInReceive } : Server).conn = s.conn := rfl
          obtain ⟨hsane', henter⟩ := setServer_spec hsane hs hconn rfl
          have hstart : Served S ((frames.items bytes).length +
              ((chunksOf rs).flatMap frames.items).length) w []
              (w.setServer { s with flags := s.flags ||| flagsInReceive }) := by
            refine .live hsane' hentered (fun hs => ?_) henter
            have hentries := hscript hs
            rw [entriesFor, chunksOf, List.flatMap_cons, List.length_append] at hentries
            exact hentries
          have hhandled := handleMessage_served s.receiveCallback s.receiveContext bytes hstart
          simp only [afIpccClientOnRecv, recvLoop, hooks, deref_eq hs, bind, Except.bind, pure,
            Except.pure]
          refine hhandled.bind (fun v hv => ?_)
          cases hv with
          | freed hns hnone =>
              have hderef : v.deref = .error .useAfterRelease := by
                rw [World.deref, hnone]
              simp only [hderef]
              exact hns
          | live hsanev halivev hscriptv hevolves =>
              obtain ⟨t, ht, hfdt, ⟨hreceiving, hspared⟩, hbaset⟩ := halivev.server
              have hconnt : ({ t with flags := t.flags &&& ~~~flagsInReceive } : Server).conn =
                  t.conn := rfl
              obtain ⟨hleft, hleave⟩ := setServer_spec hsanev ht hconnt rfl
              have hgrown := hevolves.trans hleave
              rw [List.append_nil] at hgrown
              have hopen : ∀ G : BitVec 16 → Prop, G (t.flags &&& ~~~flagsInReceive) →
                  OpenWith G (v.setServer { t with flags := t.flags &&& ~~~flagsInReceive }) :=
                fun G hG => halivev.update hfdt hG hbaset
              simp only [deref_eq ht]
              rcases hreceiving with hf | hf
              · -- not marked: the loop goes on
                have hzero : t.flags &&& ~~~flagsInReceive = 0 := by
                  rw [hf]
                  decide
                rw [hzero] at hopen hleft hgrown ⊢
                refine (ih hleft (hopen _ rfl) hscriptv).mono ?_
                rintro w' ⟨hquiet, hsane'', halive'', gs, hrest, hgs⟩
                refine ⟨hquiet, hsane'', fun hs hdata => ?_, frames.items bytes ++ gs, ?_, fun hs => ?_⟩
                · exact halive'' hs (fun r hr => hdata r (List.mem_cons_of_mem _ hr))
                · rw [List.map_append]
                  exact hgrown.trans hrest
                · rw [hgs hs]
                  rfl
              · -- marked by `af_ipcc_close`
                have hns : ¬ S := by
                  intro hs
                  have hsame := hf.symm.trans (hspared hs)
                  exact absurd hsame (by decide)
                have hone : t.flags &&& ~~~flagsInReceive = flagsMarkedForShutdown := by
                  rw [hf]
                  decide
                rw [hone] at hopen hleft hgrown ⊢
                obtain ⟨u, hu, hfreed⟩ :=
                  closeAndFreeServer_freed (hopen (fun _ => True) trivial) statusOk
                have heq := @closeAndFreeServer_eq (v.setServer { t with
                  flags := flagsMarkedForShutdown }) _ rfl hfdt statusOk
                obtain ⟨hsaneu, hclosed⟩ := closed_spec hleft rfl statusOk
                show Safe _ _ (closeAndFreeServer statusOk _)
                rw [heq]
                obtain rfl := Except.ok.inj (hu.symm.trans heq)
                have hall := hgrown.trans hclosed
                rw [List.append_nil] at hall
                exact ⟨Or.inr hfreed, hsaneu, fun hs => absurd hs hns, _, hall,
                  fun hs => absurd hs hns⟩

end Receive

end AfIpc.Ipcc
