/-
  AfIpc.Ipcc.Kept

  What the client keeps from one event to the next.  A relation that the few things an
  event does to the connection keep, and that its callbacks keep, holds between the
  states before and after the event, whatever the socket delivers.
-/

import AfIpc.Ipcc.Runs

namespace AfIpc.Ipcc

open AfIpc.Lib AfIpc.Ipc

/-- A fault other than an access through the freed handle. -/
def Foreign (f : Fault) : Prop := f ≠ .useAfterRelease

-- ============================================================================
-- Faults
-- ============================================================================

/-- The only fault, if there is one, is an access through the freed handle. -/
def Follows {α : Type} (x : Except Fault α) : Prop := Safe Foreign (fun _ => True) x

section Follows

variable {α β : Type} {w : World}

theorem Follows.bind {x : Except Fault α} {f : α → Except Fault β} (hx : Follows x)
    (hf : ∀ a, Follows (f a)) : Follows (x >>= f) := Safe.bind hx (fun a _ => hf a)

theorem follows_ok (a : α) : Follows (.ok a : Except Fault α) := trivial

theorem deref_follows (w : World) : Follows w.deref := by
  unfold World.deref
  cases w.server with
  | none => exact fun h => h rfl
  | some s => exact follows_ok s

theorem closeAndFreeServer_follows (status : Int) (w : World) :
    Follows (closeAndFreeServer status w) := by
  refine (deref_follows w).bind (fun s => ?_)
  -- with or without a close callback
  cases s.closeCallback with
  | none => exact follows_ok _
  | some cb => exact follows_ok _

theorem sendOrClose_follows (s : Server) (sentBy : SentBy) (r : SendResult) (env : SendEnv)
    (w : World) : Follows (sendOrClose s sentBy r env w) := by
  simp only [sendOrClose]
  split_ifs
  · exact (closeAndFreeServer_follows statusError _).bind (fun v => follows_ok _)
  · exact follows_ok _

/-- A call of the application, whatever the state it is made in. -/
theorem runAction_follows (w : World) (a : Action) : Follows (runAction w a) := by
  have hsend : ∀ send : Server → Except Fault (Reply × World), (∀ s, Follows (send s)) →
      Follows (w.deref >>= send >>= fun out => pure out.2) := fun send hsend =>
    ((deref_follows w).bind hsend).bind (fun out => follows_ok out.2)
  unfold runAction
  split_ifs
  · exact follows_ok w
  cases a with
  | sendRequest txBuffer txBufferSize callback context timeoutMs env =>
      refine hsend _ (fun s => ?_)
      split_ifs
      · exact follows_ok _
      · exact sendOrClose_follows _ _ _ env w
  | sendResponse seqNum txBuffer txBufferSize env =>
      refine hsend _ (fun s => ?_)
      split_ifs
      · exact follows_ok _
      · exact sendOrClose_follows _ _ _ env w
  | sendUnsolicited txBuffer txBufferSize env =>
      refine hsend _ (fun s => ?_)
      split_ifs
      · exact follows_ok _
      · exact sendOrClose_follows _ _ _ env w
  | close =>
      refine (deref_follows w).bind (fun s => ?_)
      split_ifs
      · exact follows_ok _
      · exact closeAndFreeServer_follows statusOk w

theorem runCallback_follows (w : World) : Follows (runCallback w) := by
  unfold runCallback
  cases w.script with
  | nil => exact follows_ok w
  | cons actions script => exact Safe.run (fun v a _ _ => runAction_follows v a) trivial

end Follows

-- ============================================================================
-- The end of the connection
-- ============================================================================

/-- What `close_and_free_server` does, with a descriptor or without one: it makes some of
    the calls that it makes with one. -/
structure Closes (status : Int) (w w' : World) : Prop where
  server : w'.server = none
  script : w'.script = w.script
  trace : ∃ s calls, w.server = some s ∧ w'.trace = w.trace ++ calls ∧
    calls.Sublist (closeCalls status s)

theorem closeAndFreeServer_closes {w w' : World} {status : Int}
    (h : closeAndFreeServer status w = .ok w') : Closes status w w' := by
  cases hs : w.server with
  | none =>
      simp only [closeAndFreeServer, World.deref, hs, bind, Except.bind] at h
      cases h
  | some s =>
      have hsub : ∀ calls : List Call,
          calls.Sublist [.shutdown s.fd .rdwr, .closeFd s.fd, .release 0] →
          (calls ++ if s.closeCallback.isSome then [Call.closeCallback 0 status 0 s.receiveContext]
            else []).Sublist (closeCalls status s) := fun calls hcalls => hcalls.append_right _
      have hfree : [Call.release 0].Sublist [.shutdown s.fd .rdwr, .closeFd s.fd, .release 0] := by
        simp
      simp only [closeAndFreeServer, deref_eq hs, bind, Except.bind] at h
      split_ifs at h with hcb hfd hfd <;> obtain rfl := Except.ok.inj h
      · refine ⟨rfl, rfl, s, _, hs, ?_, hsub _ (List.Sublist.refl _)⟩
        simp [World.note, World.setBase, hcb]
      · refine ⟨rfl, rfl, s, _, hs, ?_, hsub _ hfree⟩
        simp [World.note, World.setBase, hcb]
      · refine ⟨rfl, rfl, s, _, hs, ?_, hsub _ (List.Sublist.refl _)⟩
        simp [World.note, World.setBase, hcb]
      · refine ⟨rfl, rfl, s, _, hs, ?_, hsub _ hfree⟩
        simp [World.note, World.setBase, hcb]

-- ============================================================================
-- What every call keeps
-- ============================================================================

/-- A relation of the state before to the state after which each thing that a call of the
    application does keeps. -/
structure KeptByCalls (R : World → World → Prop) : Prop where
  refl : ∀ w, R w w
  trans : ∀ {u v w}, R u v → R v w → R u w
  script : ∀ (w : World) script, R w { w with script := script }
  /-- What was read through the handle is written back. -/
  write : ∀ (w : World) s s', w.server = some s → s'.handle = s.handle → R w (w.setServer s')
  setBase : ∀ (w : World) base, R w (w.setBase base)
  note : ∀ (w : World) fd sentBy packet ok, R w (w.noteSend fd sentBy packet ok)
  close : ∀ w w' status, closeAndFreeServer status w = .ok w' → R w w'

section KeptByCalls

variable {R : World → World → Prop} {w : World} {s : Server}

/-- The end of the connection. -/
theorem KeptByCalls.closing (hR : KeptByCalls R) (status : Int) (w : World) :
    Safe Foreign (R w) (closeAndFreeServer status w) := by
  have hfollows := closeAndFreeServer_follows status w
  cases hclose : closeAndFreeServer status w with
  | error e =>
      rw [hclose] at hfollows
      exact hfollows
  | ok w' => exact hR.close w w' status hclose

/-- A send, whether it fails or not. -/
theorem KeptByCalls.sendOrClose (hR : KeptByCalls R) (hs : w.server = some s) {s' : Server}
    (hhandle : s'.handle = s.handle) (sentBy : SentBy) (r : SendResult) (env : SendEnv) :
    Safe Foreign (fun out : Reply × World => R w out.2) (sendOrClose s' sentBy r env w) := by
  have hwritten := hR.trans (hR.write w s s' hs hhandle) (hR.setBase _ r.base)
  have hsent := hR.trans hwritten (hR.note _ s'.fd sentBy r.packet env.sendmsg)
  simp only [Ipcc.sendOrClose]
  split_ifs
  · exact (hR.closing statusError _).bind (fun v hv => hR.trans hsent hv)
  · exact hsent

theorem KeptByCalls.afIpccClose (hR : KeptByCalls R) (w : World) :
    Safe Foreign (R w) (afIpccClose w) := by
  unfold Ipcc.afIpccClose World.deref
  cases hs : w.server with
  | none => exact fun h => h rfl
  | some s =>
      simp only [bind, Except.bind]
      split_ifs
      · exact hR.write w s _ hs rfl
      · exact hR.closing statusOk w

/-- **A call of the application**, whatever the state it is made in. -/
theorem KeptByCalls.action (hR : KeptByCalls R) (w : World) (a : Action) :
    Safe Foreign (R w) (runAction w a) := by
  -- the three send functions
  have hsend : ∀ (write : Server → Server) (sentBy : SentBy) (r : Server → SendResult)
      (env : SendEnv), (∀ s, (write s).handle = s.handle) →
      Safe Foreign (R w) ((w.deref >>= fun s => if s.fd < 0 then pure (⟨-1, some einval⟩, w) else
        Ipcc.sendOrClose (write s) sentBy (r s) env w) >>= fun out => pure out.2) := by
    intro write sentBy r env hwrite
    unfold World.deref
    cases hs : w.server with
    | none => exact fun h => h rfl
    | some s =>
        simp only [bind, Except.bind]
        split_ifs
        · exact hR.refl w
        · exact (hR.sendOrClose hs (hwrite s) sentBy (r s) env).bind (fun out hout => hout)
  unfold runAction
  split_ifs
  · exact hR.refl w
  cases a with
  | sendRequest txBuffer txBufferSize callback context timeoutMs env =>
      exact hsend
        (fun s => { s with reqControl := (afIpcSend (some s.reqControl) w.base 0 txBuffer txBufferSize
          callback context timeoutMs env).rc.getD s.reqControl })
        (.request callback context)
        (fun s => afIpcSend (some s.reqControl) w.base 0 txBuffer txBufferSize callback context
          timeoutMs env) env (fun _ => rfl)
  | sendResponse seqNum txBuffer txBufferSize env =>
      exact hsend id .response
        (fun _ => afIpcSend none w.base seqNum txBuffer txBufferSize none 0 0 env) env (fun _ => rfl)
  | sendUnsolicited txBuffer txBufferSize env =>
      exact hsend id .unsolicited
        (fun _ => afIpcSend none w.base 0 txBuffer txBufferSize none 0 0 env) env (fun _ => rfl)
  | close => exact hR.afIpccClose w

/-- **A callback.** -/
theorem KeptByCalls.callback (hR : KeptByCalls R) (w : World) :
    Safe Foreign (R w) (runCallback w) := by
  unfold runCallback
  cases w.script with
  | nil => exact hR.refl w
  | cons actions script =>
      refine Safe.run (I := R w) (fun v a _ hv => ?_) (hR.script w script)
      exact (hR.action v a).mono (fun _ hu => hR.trans hv hu)

end KeptByCalls

-- ============================================================================
-- What every event keeps
-- ============================================================================

/-- A relation of the state before to the state after which each thing that an event
    does keeps. -/
structure KeptByEvents (R : World → World → Prop) : Prop where
  refl : ∀ w, R w w
  trans : ∀ {u v w}, R u v → R v w → R u w
  observe : ∀ (w : World) (c : Call), c.heard = true → R w (w.note c)
  /-- What was read through the handle is written back. -/
  write : ∀ (w : World) s s', w.server = some s → s'.handle = s.handle → R w (w.setServer s')
  setBase : ∀ (w : World) base, R w (w.setBase base)
  close : ∀ w w' status, closeAndFreeServer status w = .ok w' → R w w'
  callback : ∀ w w', runCallback w = .ok w' → R w w'

section KeptByEvents

variable {R : World → World → Prop} {w : World} {s : Server}

/-- The end of the connection. -/
theorem KeptByEvents.closing (hR : KeptByEvents R) (status : Int) (w : World) :
    Safe Foreign (R w) (closeAndFreeServer status w) := by
  have hfollows := closeAndFreeServer_follows status w
  cases hclose : closeAndFreeServer status w with
  | error e =>
      rw [hclose] at hfollows
      exact hfollows
  | ok w' => exact hR.close w w' status hclose

/-- A callback. -/
theorem KeptByEvents.called (hR : KeptByEvents R) (w : World) :
    Safe Foreign (R w) (runCallback w) := by
  have hfollows := runCallback_follows w
  cases hcall : runCallback w with
  | error e =>
      rw [hcall] at hfollows
      exact hfollows
  | ok w' => exact hR.callback w w' hcall

/-- A frame, with whatever its callback does. -/
theorem KeptByEvents.handleFrame (hR : KeptByEvents R) (callback : Option Callback)
    (context : Context) (f : Frame) (w : World) :
    Safe Foreign (R w) (handleFrame (receiver callback context) f w) := by
  have hnoted : R w (w.note (.frame 0 f)) := hR.observe w _ rfl
  have hcalled : ∀ u, R w u → Safe Foreign (R w) (runCallback u) := fun u hu =>
    (hR.called u).mono (fun _ hv => hR.trans hu hv)
  simp only [Ipc.handleFrame, receiver]
  split_ifs
  · -- a request or an unsolicited message
    cases callback with
    | none => exact hnoted
    | some cb => exact hcalled _ (hR.trans hnoted (hR.observe _ _ rfl))
  · -- a response
    unfold World.deref
    cases hs : (w.note (.frame 0 f)).server with
    | none => exact fun h => h rfl
    | some s =>
        simp only [bind, Except.bind, pure, Except.pure]
        generalize takeResponse (getSeqId f.seqNum) s.reqControl (w.note (.frame 0 f)).base = taken
        obtain ⟨found, rc, base⟩ := taken
        cases found with
        | none => exact hnoted
        | some req =>
            have hset := hR.trans hnoted (hR.write _ s { s with reqControl := rc } hs rfl)
            have htaken := hR.trans hset (hR.setBase _ base)
            cases hcb : req.responseCallback with
            | none =>
                simp only [hcb]
                exact htaken
            | some cb =>
                simp only [hcb]
                exact hcalled _ (hR.trans htaken (hR.observe _ _ rfl))

/-- **The receive loop**, whatever `recv` returns. -/
theorem KeptByEvents.recvLoop (hR : KeptByEvents R) (results : List RecvResult) (w : World) :
    Safe Foreign (R w) (recvLoop hooks results w) := by
  refine recvLoop_keeps (I := R w) (fun v hv => ?_) (fun v hv => ?_)
    (fun status v hv => (hR.closing status v).mono (fun _ hu => hR.trans hv hu)) results (hR.refl w)
  · simp only [hooks, World.deref]
    cases hs : v.server with
    | none => exact fun h => h rfl
    | some s =>
        have hentered := hR.write v s { s with flags := s.flags ||| flagsInReceive } hs rfl
        refine ⟨hR.trans hv hentered, fun f u hu => ?_⟩
        exact (hR.handleFrame _ _ f u).mono (fun _ hx => hR.trans hu hx)
  · simp only [hooks, World.deref]
    cases hs : v.server with
    | none => exact fun h => h rfl
    | some s =>
        exact hR.trans hv (hR.write v s { s with flags := s.flags &&& ~~~flagsInReceive } hs rfl)

/-- **A timer**, with whatever its callback does. -/
theorem KeptByEvents.onTimeout (hR : KeptByEvents R) (event : Nat) (w : World) :
    Safe (fun f => Foreign f ∧ f ≠ .staleTimer) (R w) (onTimeout event w) := by
  unfold Ipcc.onTimeout
  split
  · exact hR.refl w
  · rename_i ptr _
    cases hs : w.server with
    | none => exact fun h => h.2 rfl
    | some s =>
        cases hout : afIpcOnTimeout ptr s.reqControl (timerFired event w.base) with
        | error e =>
            obtain rfl := afIpcOnTimeout_error hout
            simp only [hout, bind, Except.bind]
            exact fun h => h.2 rfl
        | ok out =>
            obtain ⟨req, rc, base⟩ := out
            have hset := hR.write w s { s with reqControl := rc } hs rfl
            have htaken := hR.trans hset (hR.setBase _ base)
            simp only [hout, bind, Except.bind]
            cases hcb : req.responseCallback with
            | none => exact htaken
            | some cb =>
                refine ((hR.called _).weaken (fun _ hf => hf.1)).mono (fun _ hu => ?_)
                exact hR.trans (hR.trans htaken (hR.observe _ _ rfl)) hu

/-- The two as events, with what their callbacks are to do. -/
theorem KeptByEvents.clientStep_recv (hR : KeptByEvents R) {script : List (List Action)}
    (hscript : R w { w with script := script }) (results : List RecvResult) :
    Safe Foreign (R w) (clientStep w (.recv results script)) := by
  simp only [clientStep]
  split_ifs
  · exact (hR.recvLoop results _).mono (fun _ hu => hR.trans hscript hu)
  · exact hR.refl w

theorem KeptByEvents.clientStep_timeout (hR : KeptByEvents R) {script : List (List Action)}
    (hscript : R w { w with script := script }) (event : Nat) :
    Safe (fun f => Foreign f ∧ f ≠ .staleTimer) (R w) (clientStep w (.timeout event script)) :=
  (hR.onTimeout event _).mono (fun _ hu => hR.trans hscript hu)

end KeptByEvents

end AfIpc.Ipcc
