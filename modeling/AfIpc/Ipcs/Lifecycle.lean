/-
  AfIpc.Ipcs.Lifecycle

  The server's event handlers as steps of the endpoint, and the life of a client
  across them.  A handler is entered for a client that is connected, and its
  callbacks may make any calls.  If none of them releases the client being served
  (`Spares`), the client is connected until the handler itself closes it, and the
  handler returns.  If one does, the client is gone for the rest of the handler,
  whose next access to the record is a fault.
-/

import AfIpc.Ipcs.Refines

namespace AfIpc.Ipcs

open AfIpc.Lib AfIpc.Ipc

/-- No fault is excluded. -/
def anyFault (_ : Fault) : Prop := False

-- ============================================================================
-- What every call of the application keeps
-- ============================================================================

/-- A relation of the state before to the state after which each thing that a call of
    the application does keeps. -/
structure Kept (R : World → World → Prop) : Prop where
  refl : ∀ w, R w w
  trans : ∀ {u v w}, R u v → R v w → R u w
  locked : ∀ w : World, R w w.locked
  unlock : ∀ w : World, R w w.unlock
  script : ∀ (w : World) script, R w { w with script := script }
  note : ∀ (w : World) c sentBy packet ok, R w (w.noteSend c sentBy packet ok)
  table : ∀ (w : World) c rc base, c ∈ w.server.clients →
    R w ((w.setClient { c with reqControl := rc }).setBase base)
  close : ∀ w status ptr, Safe anyFault (R w) (closeClient status ptr w)

section Kept

variable {R : World → World → Prop} {w w' : World}

theorem Kept.lock (hR : Kept R) : Safe anyFault (R w) w.lock := by
  unfold World.lock
  split_ifs
  · exact not_false
  · exact hR.locked w

/-- The end of a send. -/
theorem Kept.send_tail (hR : Kept R) (h : R w w') (ret : Int) (ptr : Nat) (reply : Reply) :
    Safe anyFault (fun out => R w out.2)
      (if ret < 0 then closeClient statusError ptr w'.unlock >>= fun v => pure (reply, v)
        else pure (reply, w'.unlock) : Except Fault (Reply × World)) := by
  have hunlocked : R w w'.unlock := hR.trans h (hR.unlock w')
  split_ifs
  · exact (hR.close _ statusError ptr).bind (fun v hv => hR.trans hunlocked hv)
  · exact hunlocked

theorem Kept.broadcast (hR : Kept R) (txBuffer : List Byte) (txBufferSize : Int)
    (env : Int → SendEnv) (clients : List Client) :
    R w (broadcast txBuffer txBufferSize env clients w) := by
  induction clients generalizing w with
  | nil => exact hR.refl w
  | cons c clients ih => exact hR.trans (hR.note w c _ _ _) ih

/-- A call of the application, whatever the state it is made in. -/
theorem Kept.action (hR : Kept R) (w : World) (a : Action) : Safe anyFault (R w) (runAction w a) := by
  have hsame : ∀ v, R w v → R w v.unlock := fun v hv => hR.trans hv (hR.unlock v)
  cases a with
  | sendResponse seqNum txBuffer txBufferSize env =>
      show Safe _ _ (afIpcsSendResponse seqNum txBuffer txBufferSize env w >>= _)
      refine Safe.bind (P := fun out : Reply × World => R w out.2) ?_ (fun ⟨_, _⟩ hout => hout)
      refine hR.lock.bind (fun v hv => ?_)
      split_ifs
      · cases findClientByCid v (getClientId seqNum) with
        | none => exact hsame v hv
        | some c => exact hR.send_tail (hR.trans hv (hR.note v c _ _ _)) _ _ _
      · exact hsame v hv
  | sendUnsolicited clientId txBuffer txBufferSize env =>
      show Safe _ _ (afIpcsSendUnsolicited clientId txBuffer txBufferSize env w >>= _)
      refine Safe.bind (P := fun out : Reply × World => R w out.2) ?_ (fun ⟨_, _⟩ hout => hout)
      refine hR.lock.bind (fun v hv => ?_)
      split_ifs
      · exact hsame _ (hR.trans hv (hR.broadcast _ _ _ _))
      · cases findClientByCid v clientId with
        | none => exact hsame v hv
        | some c =>
            dsimp only
            by_cases hfd : c.clientFd ≥ 0
            · rw [if_pos hfd]
              exact hR.send_tail (hR.trans hv (hR.note v c _ _ _)) _ _ _
            · rw [if_neg hfd]
              exact hsame v hv
  | sendRequest clientId txBuffer txBufferSize callback context timeoutMs env =>
      show Safe _ _ (afIpcsSendRequest clientId txBuffer txBufferSize callback context timeoutMs
        env w >>= _)
      refine Safe.bind (P := fun out : Reply × World => R w out.2) ?_ (fun ⟨_, _⟩ hout => hout)
      unfold afIpcsSendRequest
      split_ifs
      · exact hR.refl w
      · refine hR.lock.bind (fun v hv => ?_)
        cases hfind : findClientByCid v clientId with
        | none => exact hsame v hv
        | some c =>
            dsimp only
            by_cases hfd : c.clientFd ≥ 0
            · rw [if_pos hfd]
              refine hR.send_tail (hR.trans hv (hR.trans ?_ (hR.note _ c _ _ _))) _ _ _
              exact hR.table v c _ _ (findClientByCid_mem hfind).1
            · rw [if_neg hfd]
              exact hsame v hv
  | closeClient clientId =>
      show Safe _ _ (afIpcsCloseClient clientId w >>= _)
      refine Safe.bind (P := fun out : Reply × World => R w out.2) ?_ (fun ⟨_, _⟩ hout => hout)
      unfold afIpcsCloseClient
      cases findClientByCid w clientId with
      | none => exact hR.refl w
      | some c => exact (hR.close w statusOk c.ptr).bind (fun v hv => hv)

/-- **A callback**, whatever calls it makes. -/
theorem Kept.callback (hR : Kept R) (w : World) : Safe anyFault (R w) (runCallback w) := by
  unfold runCallback
  split
  · exact hR.refl w
  · refine Safe.run (I := R w) (fun v a _ hv => ?_) (hR.script w _)
    exact (hR.action v a).mono (fun _ hw => hR.trans hv hw)

end Kept

-- ============================================================================
-- Calls add no clients
-- ============================================================================

/-- The clients of `w'` were connected in `w`. -/
def Shrinks (w w' : World) : Prop := ∀ id ∈ w'.idents, id ∈ w.idents

section Shrinks

variable {w w' : World}

theorem Shrinks.trans {w'' : World} (h : Shrinks w w') (h' : Shrinks w' w'') : Shrinks w w'' :=
  fun id hid => h id (h' id hid)

theorem Shrinks.of_server (h : w'.server.clients = w.server.clients) : Shrinks w w' := by
  intro id hid
  rw [World.idents, h] at hid
  exact hid

theorem lock_shrinks : Safe anyFault (Shrinks w) w.lock := by
  unfold World.lock
  split_ifs
  · exact not_false
  · exact Shrinks.of_server rfl

theorem setClient_shrinks {c c' : Client} (hc : c ∈ w.server.clients) (hid : c'.ident = c.ident) :
    Shrinks w (w.setClient c') := by
  intro id hmem
  obtain ⟨d, hd, rfl⟩ := List.mem_map.mp hmem
  obtain ⟨d', hd', rfl⟩ := List.mem_map.mp hd
  split_ifs
  · rw [hid]
    exact List.mem_map_of_mem hc
  · exact List.mem_map_of_mem hd'

theorem setTable_shrinks {c : Client} (hc : c ∈ w.server.clients) (rc : ReqControl)
    (base : EventBase) : Shrinks w ((w.setClient { c with reqControl := rc }).setBase base) := by
  have hset : Shrinks w (w.setClient { c with reqControl := rc }) := setClient_shrinks hc rfl
  exact hset.trans (.of_server rfl)

theorem closeClient_shrinks (status : Int) (ptr : Nat) :
    Safe anyFault (Shrinks w) (closeClient status ptr w) := by
  unfold closeClient
  cases hclient : w.client ptr with
  | error e => exact not_false
  | ok c =>
      have hnoted : Shrinks w ((w.note (.shutdown c.clientFd .rd)).setBase
          (eventFreeIf c.recvEvent w.base)) := .of_server rfl
      simp only [bind, Except.bind]
      cases hlock : ((w.note (.shutdown c.clientFd .rd)).setBase
          (eventFreeIf c.recvEvent (w.note (.shutdown c.clientFd .rd)).base)).lock with
      | error e => exact not_false
      | ok v =>
          have hv : Shrinks w v := hnoted.trans (lock_shrinks.of_ok hlock)
          have herased : Shrinks w (v.setClients (v.server.clients.eraseP
              (fun d => d.ptr = ptr))) := by
            intro id hid
            obtain ⟨d, hd, rfl⟩ := List.mem_map.mp hid
            exact hv _ (List.mem_map_of_mem (List.mem_of_mem_eraseP hd))
          dsimp only
          split_ifs
          · exact herased
          · exact herased

theorem kept_shrinks : Kept Shrinks where
  refl := fun _ _ hid => hid
  trans := Shrinks.trans
  locked := fun _ => .of_server rfl
  unlock := fun _ => .of_server rfl
  script := fun _ _ => .of_server rfl
  note := by
    intro w c sentBy packet ok
    rw [noteSend_eq]
    exact .of_server rfl
  table := fun _ _ rc base hc => setTable_shrinks hc rc base
  close := fun _ => closeClient_shrinks

/-- A call adds no clients, whatever the state it is made in. -/
theorem runAction_shrinks (w : World) (a : Action) :
    Safe anyFault (Shrinks w) (runAction w a) :=
  kept_shrinks.action w a

theorem runCallback_shrinks (w : World) : Safe anyFault (Shrinks w) (runCallback w) :=
  kept_shrinks.callback w

end Shrinks

-- ============================================================================
-- Callbacks
-- ============================================================================

/-- No call of the script ends the connection of the client. -/
def Spares (script : List (List Action)) (id : Nat × BitVec 16 × Int) : Prop :=
  ∀ actions ∈ script, ∀ a ∈ actions, a.releases id = false

theorem Spares.take {script : List (List Action)} {id : Nat × BitVec 16 × Int} {m n : Nat}
    (h : Spares (script.take n) id) (hle : m ≤ n) : Spares (script.take m) id :=
  fun actions hactions => h actions (List.take_subset_take_left script hle hactions)

/-- What is left for the callbacks behind one that was called. -/
theorem Spares.tail {script : List (List Action)} {id : Nat × BitVec 16 × Int} {n : Nat}
    (h : Spares (script.take (n + 1)) id) : Spares (script.tail.take n) id :=
  fun actions hactions => h actions (mem_take_of_mem_tail hactions)

section Callbacks

variable {w : World}

theorem runActions_spec (hi : Idle w) (actions : List Action) :
    ∃ w', run runAction w actions = .ok w' ∧ Idle w' ∧
      Evolves w w' [] (fun id => ∀ a ∈ actions, a.releases id = false) ∧ w'.script = w.script := by
  induction actions generalizing w with
  | nil => exact ⟨w, rfl, hi, .refl w _, rfl⟩
  | cons a actions ih =>
      obtain ⟨v, hv, hidle, hevolves, hscript⟩ := runAction_spec hi a
      obtain ⟨w', hw', hidle', hevolves', hscript'⟩ := ih hidle
      refine ⟨w', ?_, hidle', ?_, hscript'.trans hscript⟩
      · rw [run_cons, hv]
        exact hw'
      · have hone : Evolves w v [] (fun id => ∀ b ∈ a :: actions, b.releases id = false) :=
          hevolves.mono (fun id hid => hid a List.mem_cons_self)
        exact hone.trans (hevolves'.mono fun id hid b hb => hid b (List.mem_cons_of_mem a hb))

/-- **A callback** returns, and ends no connection but those its calls release. -/
theorem runCallback_spec (hi : Idle w) :
    ∃ w', runCallback w = .ok w' ∧ Idle w' ∧ Evolves w w' [] (Spares (w.script.take 1)) ∧
      w'.script = w.script.tail := by
  unfold runCallback
  cases hscript : w.script with
  | nil => exact ⟨w, rfl, hi, .refl w _, hscript⟩
  | cons actions script =>
      have hstart : Idle { w with script := script } :=
        ⟨hi.sound, hi.unlocked, hi.fds, hi.unmarked⟩
      obtain ⟨w', hw', hidle, hevolves, hscript'⟩ := runActions_spec hstart actions
      refine ⟨w', hw', hidle, ?_, hscript'⟩
      have hspared : Evolves { w with script := script } w' []
          (Spares ((actions :: script).take 1)) :=
        hevolves.mono (fun id hid => hid actions List.mem_cons_self)
      exact ⟨hspared.steps, hspared.taken, hspared.keeps, hspared.flags⟩

end Callbacks

-- ============================================================================
-- One frame
-- ============================================================================

/-- What `af_ipc_handle_receive_message` itself does with a frame from the client
    `c`, up to the callback. -/
inductive Dispatch (w : World) (c : Client) (f : Frame) : World → Prop
  | skip (hskip : f.IsNew ∨ ∀ r ∈ c.reqControl.pendingRequests, r.seqNum ≠ getSeqId f.seqNum) :
      Dispatch w c f (w.note (.frame c.ptr f))
  | deliver {context : Context} (hnew : f.IsNew) :
      Dispatch w c f ((w.note (.frame c.ptr f)).note (.receiveCallback c.ptr
        (deliveredSeqNum c.cid (getSeqId f.seqNum)) f.payload context))
  | complete {req : Request} {rc : ReqControl} {base : EventBase} {calls : List Call}
      (hold : ¬ f.IsNew)
      (htake : takeResponse (getSeqId f.seqNum) c.reqControl w.base = (some req, rc, base))
      (hcalls : calls = [] ∨
        calls = [.responseCallback c.ptr req statusOk (getSeqId f.seqNum) f.payload])
      (hheard : calls = [] → req.responseCallback = none) :
      Dispatch w c f
        { (w.setClient { c with reqControl := rc }).setBase base with
          trace := w.trace ++ .frame c.ptr f :: calls }

section Frames

variable {w : World} {c : Client}

theorem handleFrame_dispatch (hi : Idle w) (hc : c ∈ w.server.clients)
    (callback : Option Callback) (context : Context) (f : Frame) :
    ∃ v, Dispatch w c f v ∧
      (handleFrame (serverReceiver c.ptr c.cid callback context) f w = .ok v ∨
        handleFrame (serverReceiver c.ptr c.cid callback context) f w = runCallback v) := by
  have hclient : (w.note (.frame c.ptr f)).client c.ptr = .ok c := hi.client hc
  simp only [handleFrame, serverReceiver]
  by_cases hnew : f.IsNew
  · have hif : getSeqId f.seqNum = 0 ∨ isNewRequest (getSeqId f.seqNum) = true := hnew
    rw [if_pos hif]
    cases callback with
    | none => exact ⟨_, .skip (.inl hnew), .inl rfl⟩
    | some cb => exact ⟨_, .deliver hnew, .inr rfl⟩
  · have hif : ¬ (getSeqId f.seqNum = 0 ∨ isNewRequest (getSeqId f.seqNum) = true) := hnew
    rw [if_neg hif]
    simp only [hclient, bind, Except.bind, pure, Except.pure]
    cases htake : takeResponse (getSeqId f.seqNum) c.reqControl (w.note (.frame c.ptr f)).base with
    | mk found rest =>
        obtain ⟨rc, base⟩ := rest
        cases found with
        | none => exact ⟨_, .skip (.inr (takeResponse_unmatched htake)), .inl rfl⟩
        | some req =>
            have htrace : ((w.note (.frame c.ptr f)).setClient { c with reqControl := rc }).setBase
                base = { (w.setClient { c with reqControl := rc }).setBase base with
                  trace := w.trace ++ .frame c.ptr f :: [] } := rfl
            dsimp only
            cases hcb : req.responseCallback with
            | none => exact ⟨_, .complete hnew htake (.inl rfl) (fun _ => hcb), .inl rfl⟩
            | some cb =>
                refine ⟨_, .complete hnew htake (.inr rfl) (fun hnil => by cases hnil), .inr ?_⟩
                rw [htrace, World.note, List.append_assoc]
                rfl

theorem Dispatch.spec {f : Frame} {v : World} (hi : Idle w) (hc : c ∈ w.server.clients)
    (h : Dispatch w c f v) :
    Idle v ∧ Evolves w v [(c.ptr, f)] (fun _ => True) ∧ v.script = w.script := by
  cases h with
  | skip hskip =>
      have hstep : w.endpoint.Step (w.note (.frame c.ptr f)).endpoint := .skip (conn_mem hc) hskip
      have hsteps : w.endpoint.Steps _ := .single hstep
      exact ⟨⟨hsteps.sound hi.sound, hi.unlocked, hi.fds, hi.unmarked⟩,
        ⟨hsteps, takenOf_append _ _, fun _ _ hid => hid, rfl⟩, rfl⟩
  | @deliver context hnew =>
      have hstep : w.endpoint.Step ((w.note (.frame c.ptr f)).note (.receiveCallback c.ptr
          (deliveredSeqNum c.cid (getSeqId f.seqNum)) f.payload context)).endpoint := by
        have hdeliver := @Endpoint.Step.deliver w.endpoint c.conn f context (conn_mem hc) hnew
        rw [← List.singleton_append, ← note_note] at hdeliver
        exact hdeliver
      have hsteps : w.endpoint.Steps _ := .single hstep
      refine ⟨⟨hsteps.sound hi.sound, hi.unlocked, hi.fds, hi.unmarked⟩,
        ⟨hsteps, ?_, fun _ _ hid => hid, rfl⟩, rfl⟩
      show takenOf ((w.trace ++ [_]) ++ [_]) = _
      rw [takenOf_append, takenOf_append]
      exact List.append_nil _
  | @complete req rc base calls hold htake hcalls hheard =>
      have hstep : w.endpoint.Step (World.endpoint
          { (w.setClient { c with reqControl := rc }).setBase base with
            trace := w.trace ++ .frame c.ptr f :: calls }) := by
        have hcomplete := Endpoint.Step.complete (conn_mem hc) hold htake hcalls hheard
        have hset := setClient_endpoint w { c with reqControl := rc }
        have hsame : World.endpoint { (w.setClient { c with reqControl := rc }).setBase base with
            trace := w.trace ++ .frame c.ptr f :: calls } =
            ((w.setClient { c with reqControl := rc }).endpoint.setBase base).note
              (.frame c.ptr f :: calls) := rfl
        rw [hsame, hset]
        exact hcomplete
      have hsteps : w.endpoint.Steps _ := .single hstep
      refine ⟨⟨hsteps.sound hi.sound, hi.unlocked, ?_, ?_⟩, ⟨hsteps, ?_, ?_, rfl⟩, rfl⟩
      · refine setClient_all hi.fds ?_
        exact hi.fds c hc
      · refine setClient_all hi.unmarked ?_
        exact hi.unmarked c hc
      · show takenOf (w.trace ++ .frame c.ptr f :: calls) = _
        rw [takenOf_append]
        rcases hcalls with rfl | rfl <;> rfl
      · intro id _ hid
        have hidents := setClient_idents hi hc { c with reqControl := rc } rfl
        show id ∈ (w.setClient { c with reqControl := rc }).idents
        rw [hidents]
        exact hid

end Frames

-- ============================================================================
-- The receive loop
-- ============================================================================

/-- The record at the address is in no list. -/
def Gone (ptr : Nat) (w : World) : Prop := ∀ id ∈ w.idents, id.1 ≠ ptr

/-- Inside the receive loop of the client `id`, which was entered in `w₀`, has taken
    `fs` and has `n` frames to come: the client is connected, or it has been released.
    `S` says that the callbacks of these frames do not release it. -/
inductive Served (S : Prop) (n : Nat) (id : Nat × BitVec 16 × Int) (w₀ : World) (fs : List Frame)
    (w : World) : Prop
  | live (idle : Idle w) (mem : id ∈ w.idents) (script : S → Spares (w.script.take n) id)
      (evolves : Evolves w₀ w (fs.map (Prod.mk id.1)) (fun _ => False))
  | gone (hs : ¬ S) (gone : Gone id.1 w)

section Receive

variable {w w₀ : World} {c : Client} {S : Prop} {n : Nat} {id : Nat × BitVec 16 × Int}
  {fs : List Frame}

theorem Gone.client {ptr : Nat} (h : Gone ptr w) : w.client ptr = .error .useAfterRelease := by
  have hfind : w.server.clients.find? (fun c => c.ptr = ptr) = none := by
    rw [List.find?_eq_none]
    intro d hd
    simpa [Client.ident] using h d.ident (List.mem_map_of_mem hd)
  rw [World.client, hfind]

theorem Gone.shrinks {ptr : Nat} {v : World} (h : Gone ptr w) (hv : Shrinks w v) : Gone ptr v :=
  fun id hid => h id (hv id hid)

/-- A client that is no longer connected is gone. -/
theorem gone_of_not_mem (hi : Idle w) {v : World} (hid : id ∈ w.idents) (hv : Shrinks w v)
    (hnot : id ∉ v.idents) : Gone id.1 v := by
  intro i hiv heq
  obtain ⟨c, hc, rfl⟩ := List.mem_map.mp hid
  obtain ⟨d, hd, rfl⟩ := List.mem_map.mp (hv i hiv)
  rw [hi.eq_of_ptr hc hd heq] at hiv
  exact hnot hiv

theorem Idle.of_ident (hi : Idle w) (hid : id ∈ w.idents) :
    ∃ c ∈ w.server.clients, c.ident = id ∧ w.client id.1 = .ok c := by
  obtain ⟨c, hc, rfl⟩ := List.mem_map.mp hid
  exact ⟨c, hc, rfl, hi.client hc⟩

/-- What the endpoint does not see of a record is the record's own affair. -/
theorem setRecord_spec (hi : Idle w) (hc : c ∈ w.server.clients) {c' : Client}
    (hconn : c'.conn = c.conn) (hfd : c'.clientFd = c.clientFd)
    (hflags : c'.flags &&& clientFlagsMarkedForShutdown = 0) :
    Idle (w.setClient c') ∧ Evolves w (w.setClient c') [] (fun _ => True) := by
  have hset := setClient_endpoint w c'
  have hsame : w.endpoint.setConn c'.conn = w.endpoint := by
    rw [hconn]
    exact hi.sound.lives.setConn_eq (conn_mem hc)
  have hendpoint : (w.setClient c').endpoint = w.endpoint := hset.trans hsame
  have hident : c'.ident = c.ident := by
    rw [Client.ident, Client.ident, hfd]
    exact congrArg (fun d : Conn => (d.ptr, d.cid, c.clientFd)) hconn
  refine ⟨⟨?_, hi.unlocked, ?_, ?_⟩, ⟨?_, (List.append_nil _).symm, ?_, rfl⟩⟩
  · rw [hendpoint]
    exact hi.sound
  · refine setClient_all hi.fds ?_
    rw [hfd]
    exact hi.fds c hc
  · refine setClient_all hi.unmarked ?_
    exact hflags
  · rw [hendpoint]
  · intro i _ hi'
    rw [setClient_idents hi hc c' hident]
    exact hi'

theorem setFlags_spec (hi : Idle w) (hc : c ∈ w.server.clients) {flags : BitVec 16}
    (hflags : flags &&& clientFlagsMarkedForShutdown = 0) :
    Idle (w.setClient { c with flags := flags }) ∧
      Evolves w (w.setClient { c with flags := flags }) [] (fun _ => True) := by
  apply setRecord_spec hi hc
  · rfl
  · rfl
  · exact hflags

/-- **One frame** keeps the client connected, or it is gone for good. -/
theorem handleFrame_spec (h : Served S (n + 1) id w₀ fs w) (callback : Option Callback)
    (context : Context) (f : Frame) :
    Safe (fun _ => S) (Served S n id w₀ (fs ++ [f]))
      (handleFrame (serverReceiver id.1 id.2.1 callback context) f w) := by
  cases h with
  | live hi hmem hscript hevolves =>
      obtain ⟨c, hc, rfl⟩ := List.mem_map.mp hmem
      obtain ⟨v, hv, hresult⟩ := handleFrame_dispatch hi hc callback context f
      obtain ⟨hidle, hevolves', hscript'⟩ := hv.spec hi hc
      have hmemv : c.ident ∈ v.idents := hevolves'.keeps c.ident trivial hmem
      have hgrown : Evolves w₀ v ((fs ++ [f]).map (Prod.mk c.ident.1)) (fun _ => False) := by
        rw [List.map_append]
        exact hevolves.trans (hevolves'.mono fun _ _ => trivial)
      rcases hresult with hok | hcallback
      · show Safe _ _ (handleFrame (serverReceiver c.ptr c.cid callback context) f w)
        rw [hok]
        refine .live hidle hmemv (fun hs => ?_) hgrown
        rw [hscript']
        exact (hscript hs).take (Nat.le_succ n)
      · show Safe _ _ (handleFrame (serverReceiver c.ptr c.cid callback context) f w)
        obtain ⟨w', hw', hidle', hcalls, htail⟩ := runCallback_spec hidle
        rw [hcallback, hw']
        by_cases hmem' : c.ident ∈ w'.idents
        · refine .live hidle' hmem' (fun hs => ?_) ?_
          · rw [htail, hscript']
            exact (hscript hs).tail
          · have hall := hgrown.trans (Evolves.mono hcalls (fun _ hf => False.elim hf))
            rw [List.append_nil] at hall
            exact hall
        · -- a callback has released the client
          refine .gone (fun hs => hmem' (hcalls.keeps c.ident ?_ hmemv))
            (gone_of_not_mem hidle hmemv ((runCallback_shrinks v).of_ok hw') hmem')
          rw [hscript']
          exact (hscript hs).take (Nat.succ_le_succ (Nat.zero_le n))
  | gone hs hgone =>
      have hnoted : Gone id.1 (w.note (.frame id.1 f)) := hgone
      simp only [handleFrame, serverReceiver]
      split_ifs
      · cases callback with
        | none => exact .gone hs hnoted
        | some cb =>
            have hnoted' : Gone id.1 ((w.note (.frame id.1 f)).note (.receiveCallback id.1
                (deliveredSeqNum id.2.1 (getSeqId f.seqNum)) f.payload context)) := hnoted
            have hcalls := runCallback_shrinks ((w.note (.frame id.1 f)).note
              (.receiveCallback id.1 (deliveredSeqNum id.2.1 (getSeqId f.seqNum)) f.payload context))
            show Safe _ _ (runCallback _)
            cases hrun : runCallback ((w.note (.frame id.1 f)).note (.receiveCallback id.1
                (deliveredSeqNum id.2.1 (getSeqId f.seqNum)) f.payload context)) with
            | error e => exact hs
            | ok w' => exact .gone hs (hnoted'.shrinks (hcalls.of_ok hrun))
      · simp only [hnoted.client, bind, Except.bind]
        exact hs

/-- The frames of a chunk. -/
theorem handleMessage_spec (callback : Option Callback) (context : Context) (bytes : List Byte)
    (h : Served S ((frames.items bytes).length + n) id w₀ fs w) :
    Safe (fun _ => S) (Served S n id w₀ (fs ++ frames.items bytes))
      (afIpcHandleReceiveMessage (serverReceiver id.1 id.2.1 callback context) bytes w) := by
  rw [afIpcHandleReceiveMessage_eq]
  revert h
  generalize frames.items bytes = gs
  intro h
  induction gs generalizing w fs with
  | nil =>
      rw [List.length_nil, Nat.zero_add] at h
      rw [List.append_nil]
      exact h
  | cons g gs ih =>
      rw [List.length_cons, Nat.add_right_comm] at h
      refine (handleFrame_spec h callback context g).bind (fun v hv => ?_)
      have hrest := ih hv
      rw [List.append_assoc] at hrest
      exact hrest

theorem getLsbD_clientFlagsInReceive {i : Nat} (h : i ≠ 1) :
    clientFlagsInReceive.getLsbD i = false := by
  have htwo : clientFlagsInReceive = BitVec.twoPow 16 1 := rfl
  rw [htwo, BitVec.getLsbD_twoPow]
  simp [Ne.symm h]

theorem getLsbD_clientFlagsMarked {i : Nat} (h : i ≠ 0) :
    clientFlagsMarkedForShutdown.getLsbD i = false := by
  have htwo : clientFlagsMarkedForShutdown = BitVec.twoPow 16 0 := rfl
  rw [htwo, BitVec.getLsbD_twoPow]
  simp [Ne.symm h]

/-- The in-receive flag leaves the mark alone. -/
theorem unmarked_enter {flags : BitVec 16} (h : flags &&& clientFlagsMarkedForShutdown = 0) :
    (flags ||| clientFlagsInReceive) &&& clientFlagsMarkedForShutdown = 0 := by
  rw [← h]
  apply BitVec.eq_of_getLsbD_eq
  intro i _
  rw [BitVec.getLsbD_and, BitVec.getLsbD_or, BitVec.getLsbD_and]
  by_cases hi : i = 1
  · rw [getLsbD_clientFlagsMarked (by omega), Bool.and_false, Bool.and_false]
  · rw [getLsbD_clientFlagsInReceive hi, Bool.or_false]

theorem unmarked_leave {flags : BitVec 16} (h : flags &&& clientFlagsMarkedForShutdown = 0) :
    (flags &&& ~~~clientFlagsInReceive) &&& clientFlagsMarkedForShutdown = 0 := by
  have hswap : flags &&& ~~~clientFlagsInReceive &&& clientFlagsMarkedForShutdown =
      flags &&& clientFlagsMarkedForShutdown &&& ~~~clientFlagsInReceive := by
    rw [BitVec.and_assoc, BitVec.and_comm (~~~clientFlagsInReceive), ← BitVec.and_assoc]
  rw [hswap, h]
  exact BitVec.zero_and

/-- **The receive loop** of a connected client: unless a callback releases the
    client it returns, and has taken the frames of the chunks.  If it has received
    nothing else the client is still connected. -/
theorem onRecv_spec (hi : Idle w) (hid : id ∈ w.idents) (results : List RecvResult)
    (hscript : S → Spares (entriesFor results w.script) id) :
    Safe (fun _ => S) (fun w' => Idle w' ∧ Evolves w w'
        (((chunksOf results).flatMap frames.items).map (Prod.mk id.1))
        (fun i => i = id ∧ OnlyData results))
      (onRecv id.1 results w) := by
  have hclosed : ∀ status, Safe (fun _ => S)
      (fun w' => Idle w' ∧ Evolves w w' [] (fun _ => False)) (closeClient status id.1 w) := by
    intro status
    obtain ⟨c, hc, rfl, _⟩ := hi.of_ident hid
    obtain ⟨hclose, hidle, hevolves⟩ := closeClient_spec hi hc status
    show Safe _ _ (closeClient status c.ptr w)
    rw [hclose]
    exact ⟨hidle, hevolves.mono (fun _ hf => hf.elim)⟩
  induction results generalizing w with
  | nil => exact ⟨hi, .refl w _⟩
  | cons r rs ih =>
      cases r with
      | eof =>
          refine (hclosed statusError).mono fun w' hw' => ⟨hw'.1, hw'.2.mono ?_⟩
          rintro i ⟨_, hdata⟩
          obtain ⟨bytes, hbytes⟩ := hdata .eof List.mem_cons_self
          cases hbytes
      | error e =>
          simp only [onRecv, recvLoop]
          split_ifs
          · exact ⟨hi, .refl w _⟩
          · refine (hclosed statusError).mono fun w' hw' => ⟨hw'.1, hw'.2.mono ?_⟩
            rintro i ⟨_, hdata⟩
            obtain ⟨bytes, hbytes⟩ := hdata (.error e) List.mem_cons_self
            cases hbytes
      | data bytes =>
          obtain ⟨c, hc, rfl, hclient⟩ := hi.of_ident hid
          obtain ⟨hentered, henter⟩ := setFlags_spec hi hc (unmarked_enter (hi.unmarked c hc))
          have hstart : Served S ((frames.items bytes).length +
              ((chunksOf rs).flatMap frames.items).length) c.ident w []
              (w.setClient { c with flags := c.flags ||| clientFlagsInReceive }) := by
            refine .live hentered (henter.keeps _ trivial hid) (fun hs => ?_)
              (henter.mono fun _ _ => trivial)
            have hentries := hscript hs
            rw [entriesFor, chunksOf, List.flatMap_cons, List.length_append] at hentries
            exact hentries
          have hhandled := handleMessage_spec
            (w.setClient { c with flags := c.flags ||| clientFlagsInReceive }).server.receiveCallback
            c.clientContext bytes hstart
          simp only [onRecv, recvLoop, serverHooks, hclient, bind, Except.bind, pure, Except.pure]
          refine hhandled.bind (fun v hv => ?_)
          cases hv with
          | gone hs hgone =>
              simp only [hgone.client]
              exact hs
          | live hidle hmem hscript' hevolves =>
              obtain ⟨d, hd, hident, hclient'⟩ := hidle.of_ident hmem
              obtain ⟨hleft, hleave⟩ := setFlags_spec hidle hd (unmarked_leave (hidle.unmarked d hd))
              have hmark : ¬ (d.flags &&& ~~~clientFlagsInReceive &&& clientFlagsMarkedForShutdown != 0)
                  = true := by
                rw [unmarked_leave (hidle.unmarked d hd)]
                decide
              have hmem' := hleave.keeps _ trivial hmem
              simp only [hclient']
              rw [if_neg hmark]
              have hclosed' : ∀ status, Safe (fun _ => S)
                  (fun w' => Idle w' ∧ Evolves (v.setClient
                    { d with flags := d.flags &&& ~~~clientFlagsInReceive }) w' []
                    (fun _ => False))
                  (closeClient status c.ident.1
                    (v.setClient { d with flags := d.flags &&& ~~~clientFlagsInReceive })) := by
                intro status
                obtain ⟨e, he, heq, _⟩ := hleft.of_ident hmem'
                obtain ⟨hclose, hidle', hevolves'⟩ := closeClient_spec hleft he status
                rw [← heq]
                show Safe _ _ (closeClient status e.ptr _)
                rw [hclose]
                exact ⟨hidle', hevolves'.mono (fun _ hf => hf.elim)⟩
              refine (ih hleft hmem' hscript' hclosed').mono ?_
              rintro w' ⟨hidle', hrest⟩
              have hall := (hevolves.trans (hleave.mono (fun _ _ => trivial))).trans
                (hrest.mono (fun _ hf => False.elim hf))
              rw [List.nil_append, List.append_nil, ← List.map_append] at hall
              refine ⟨hidle', ⟨hall.steps, hall.taken, ?_, hall.flags⟩⟩
              rintro i ⟨rfl, hdata⟩ _
              exact hrest.keeps _ ⟨rfl, fun r hr => hdata r (List.mem_cons_of_mem _ hr)⟩ hmem'

end Receive

end AfIpc.Ipcs
