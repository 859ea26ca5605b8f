/-
  AfIpc.Ipcs.Isolation

  What a client can bring about by the bytes it sends.  The handling of a chunk is
  taken apart into what the library itself does with each frame (`Confined`) and
  what the callbacks then do (`Handles`): the first stays with the client the chunk
  is from, whatever ids and numbers the frames carry, since the client's own id is
  put into the numbers passed on and responses are looked up in its own table.
-/

import AfIpc.Ipc.Apart
import AfIpc.Ipcs.Clients

namespace AfIpc.Ipcs

open AfIpc.Lib AfIpc.Ipc

-- ============================================================================
-- Responses
-- ============================================================================

/-- A response with this number goes to the client `id`, or to nobody: each
    `sendmsg` is one to that client, and there is one unless the call fails. -/
structure RoutesTo (id : Nat × BitVec 16 × Int) (seqNum : BitVec 32) (w : World) : Prop where
  returns : Idle w → ∀ txBuffer txBufferSize env,
    ∃ out, afIpcsSendResponse seqNum txBuffer txBufferSize env w = .ok out
  routed : ∀ txBuffer txBufferSize env out,
    afIpcsSendResponse seqNum txBuffer txBufferSize env w = .ok out →
      ∃ calls, out.2.trace = w.trace ++ calls ∧
        (∀ conn fd sentBy packet ok, .sendmsg conn fd sentBy packet ok ∈ calls →
          conn = id.1 ∧ fd = id.2.2) ∧
        (out.1.ret < 0 ∨ ∃ packet, .sendmsg id.1 id.2.2 .response packet true ∈ calls)

/-- The library makes this call on behalf of a call of the application, not of a
    frame or a timer. -/
def ofApplication : Call → Bool
  | .sendmsg _ _ _ _ _ => true
  | .closeCallback _ _ _ _ => true
  | .shutdown _ _ => true
  | .closeFd _ => true
  | .release _ => true
  | _ => false

/-- No other client has the id of the client `id`. -/
def Alone (id : Nat × BitVec 16 × Int) (w : World) : Prop :=
  ∀ i ∈ w.idents, i.2.1 = id.2.1 → i = id

section Routes

variable {w : World} {id : Nat × BitVec 16 × Int}

theorem Alone.shrinks (h : Alone id w) {v : World} (hv : Shrinks w v) : Alone id v :=
  fun i hi => h i (hv i hi)

theorem Idle.alone (hi : Idle w) (hid : id ∈ w.idents) : Alone id w := by
  have hcids : (w.server.clients.map Client.cid).Nodup := by
    have h := hi.sound.lives.cids
    rw [World.endpoint, List.map_map] at h
    exact h
  obtain ⟨c, hc, rfl⟩ := List.mem_map.mp hid
  intro i hmem hcid
  obtain ⟨d, hd, rfl⟩ := List.mem_map.mp hmem
  rw [List.inj_on_of_nodup_map hcids hd hc hcid]

/-- Closing a client sends nothing. -/
theorem closeClient_trace {status : Int} {ptr : Nat} {w' : World}
    (h : closeClient status ptr w = .ok w') :
    ∃ calls, w'.trace = w.trace ++ calls ∧ (∀ call ∈ calls, ofApplication call = true) ∧
      ∀ conn fd sentBy packet ok, .sendmsg conn fd sentBy packet ok ∉ calls := by
  unfold closeClient at h
  rw [bind_eq_ok] at h
  obtain ⟨c, hc, h⟩ := h
  rw [bind_eq_ok] at h
  obtain ⟨v, hlock, h⟩ := h
  have hv : v.trace = w.trace ++ [.shutdown c.clientFd .rd] := by
    unfold World.lock at hlock
    split_ifs at hlock
    obtain rfl := Except.ok.inj hlock
    rfl
  dsimp only at h
  split_ifs at h
  · obtain rfl := Except.ok.inj h
    refine ⟨[.shutdown c.clientFd .rd, .release ptr, .closeFd c.clientFd,
      .closeCallback ptr status c.cid c.clientContext], ?_, by simp [ofApplication], by simp⟩
    show ((v.trace ++ [.release ptr]) ++ [.closeFd c.clientFd]) ++ [_] = _
    rw [hv]
    simp
  · obtain rfl := Except.ok.inj h
    refine ⟨[.shutdown c.clientFd .rd, .release ptr, .closeFd c.clientFd], ?_, by simp [ofApplication], by simp⟩
    show (v.trace ++ [.release ptr]) ++ [.closeFd c.clientFd] = _
    rw [hv]
    simp

/-- **A response finds the client by the id in its number.** -/
theorem routesTo_of_alone (halone : Alone id w) {seqNum : BitVec 32}
    (hcid : getClientId seqNum = id.2.1) : RoutesTo id seqNum w where
  returns := by
    intro hi txBuffer txBufferSize env
    obtain ⟨out, hout, -⟩ := sendResponse_spec hi seqNum txBuffer txBufferSize env
    exact ⟨out, hout⟩
  routed := by
    intro txBuffer txBufferSize env out hout
    have hrejected : ∀ v : World, v.trace = w.trace → ∃ calls, v.trace = w.trace ++ calls ∧
        (∀ conn fd sentBy packet ok, .sendmsg conn fd sentBy packet ok ∈ calls →
          conn = id.1 ∧ fd = id.2.2) ∧
        ((-1 : Int) < 0 ∨ ∃ packet, Call.sendmsg id.1 id.2.2 .response packet true ∈ calls) := by
      intro v hv
      refine ⟨[], by rw [hv, List.append_nil], ?_, Or.inl (by decide)⟩
      intro conn fd sentBy packet ok hmem
      exact absurd hmem List.not_mem_nil
    unfold afIpcsSendResponse at hout
    rw [bind_eq_ok] at hout
    obtain ⟨v, hlock, hout⟩ := hout
    have hv : v = w.locked := by
      unfold World.lock at hlock
      split_ifs at hlock
      exact (Except.ok.inj hlock).symm
    subst hv
    split_ifs at hout
    · cases hfind : findClientByCid w.locked (getClientId seqNum) with
      | none =>
          rw [hfind] at hout
          obtain rfl := Except.ok.inj hout
          exact hrejected _ rfl
      | some c =>
          rw [hfind] at hout
          obtain ⟨hc, hccid⟩ := findClientByCid_mem hfind
          have hident : c.ident = id := halone c.ident (List.mem_map_of_mem hc) (hccid.trans hcid)
          subst hident
          generalize hr : afIpcSend none w.locked.base seqNum txBuffer txBufferSize none 0 0 env = r
          have hret := @afIpcSend_ret none w.locked.base seqNum txBuffer txBufferSize none 0 0 env
          rw [hr] at hret
          dsimp only at hout
          rw [hr, noteSend_eq] at hout
          have hsends : ∀ conn fd sentBy packet ok, .sendmsg conn fd sentBy packet ok ∈
              sendCalls c.ptr c.clientFd .response r.packet env.sendmsg →
              conn = c.ident.1 ∧ fd = c.ident.2.2 := by
            intro conn fd sentBy packet ok hmem
            cases hp : r.packet with
            | none =>
                rw [hp] at hmem
                exact absurd hmem List.not_mem_nil
            | some p =>
                rw [hp] at hmem
                cases List.mem_singleton.mp hmem
                exact ⟨rfl, rfl⟩
          by_cases hfail : r.ret < 0
          · rw [if_pos hfail, bind_eq_ok] at hout
            obtain ⟨v, hclose, hout⟩ := hout
            obtain rfl := Except.ok.inj hout
            obtain ⟨calls, htrace, -, hnone⟩ := closeClient_trace hclose
            refine ⟨sendCalls c.ptr c.clientFd .response r.packet env.sendmsg ++ calls, ?_, ?_,
              Or.inl hfail⟩
            · rw [htrace, ← List.append_assoc]
              rfl
            · intro conn fd sentBy packet ok hmem
              rcases List.mem_append.mp hmem with hsend | hclosing
              · exact hsends conn fd sentBy packet ok hsend
              · exact absurd hclosing (hnone conn fd sentBy packet ok)
          · rw [if_neg hfail] at hout
            obtain rfl := Except.ok.inj hout
            refine ⟨sendCalls c.ptr c.clientFd .response r.packet env.sendmsg, rfl, hsends,
              Or.inr ?_⟩
            -- a send that did not fail made its packet
            have hs : sendSucceeds none txBufferSize 0 env = true := by
              by_contra hs
              rw [if_neg hs] at hret
              omega
            have hplain := @afIpcSend_plain none w.locked.base seqNum txBuffer txBufferSize none 0 0
              env hs (Int.le_refl 0)
            rw [hr] at hplain
            rw [hplain, (sendSucceeds_fits hs).2]
            exact ⟨_, List.mem_singleton_self _⟩
    · obtain rfl := Except.ok.inj hout
      exact hrejected _ rfl

end Routes

-- ============================================================================
-- What the calls of the application come to
-- ============================================================================

/-- Between `w` and `w'` the library makes calls for the application only. -/
def Quiet (w w' : World) : Prop :=
  ∃ calls, w'.trace = w.trace ++ calls ∧ ∀ call ∈ calls, ofApplication call = true

section Quiet

variable {w w' : World}

theorem Quiet.of_trace (h : w'.trace = w.trace) : Quiet w w' :=
  ⟨[], by rw [h, List.append_nil], fun _ hmem => absurd hmem List.not_mem_nil⟩

theorem Quiet.trans {w'' : World} (h : Quiet w w') (h' : Quiet w' w'') : Quiet w w'' := by
  obtain ⟨calls, htrace, hcalls⟩ := h
  obtain ⟨calls', htrace', hcalls'⟩ := h'
  refine ⟨calls ++ calls', by rw [htrace', htrace, List.append_assoc], ?_⟩
  intro call hmem
  rcases List.mem_append.mp hmem with hold | hnew
  · exact hcalls call hold
  · exact hcalls' call hnew

theorem closeClient_quiet (status : Int) (ptr : Nat) :
    Safe anyFault (Quiet w) (closeClient status ptr w) := by
  cases hclose : closeClient status ptr w with
  | error e => exact not_false
  | ok v =>
      obtain ⟨calls, htrace, hcalls, -⟩ := closeClient_trace hclose
      exact ⟨calls, htrace, hcalls⟩

/-- A call of the application calls no receive callback and no response callback. -/
theorem kept_quiet : Kept Quiet where
  refl := fun _ => .of_trace rfl
  trans := Quiet.trans
  locked := fun _ => .of_trace rfl
  unlock := fun _ => .of_trace rfl
  script := fun _ _ => .of_trace rfl
  note := by
    intro w c sentBy packet ok
    rw [noteSend_eq]
    refine ⟨_, rfl, ?_⟩
    cases packet with
    | none => exact fun _ hmem => absurd hmem List.not_mem_nil
    | some packet =>
        intro call hmem
        obtain rfl := List.mem_singleton.mp hmem
        rfl
  table := fun _ _ _ _ _ => .of_trace rfl
  close := fun _ => closeClient_quiet

theorem runCallback_quiet (w : World) : Safe anyFault (Quiet w) (runCallback w) :=
  kept_quiet.callback w

end Quiet

-- ============================================================================
-- What the handler itself does
-- ============================================================================

/-- A call that the handler makes for the frame `f` of the client `id`.  A response
    to the number it passes on goes to that client, both during the handling and
    in any later state in which the client is still connected. -/
def OwnCall (id : Nat × BitVec 16 × Int) (f : Frame) (w : World) : Call → Prop
  | .receiveCallback conn seqNum payload _ =>
    conn = id.1 ∧ payload = f.payload ∧ afIpcGetClientIdFromSeqNum seqNum = id.2.1 ∧
      seqNum.getLsbD 15 = false ∧
      ∀ v, Shrinks w v ∨ Idle v ∧ id ∈ v.idents → RoutesTo id seqNum v
  | .responseCallback conn req status _ payload =>
    conn = id.1 ∧ status = statusOk ∧ payload = f.payload ∧ req.seqNum = getSeqId f.seqNum ∧
      ∃ c ∈ w.server.clients, c.ident = id ∧ req ∈ c.reqControl.pendingRequests
  | _ => False

/-- The handler takes the frame `f` of the client `id`: what it does up to the
    callback is the affair of that client. -/
structure Confined (id : Nat × BitVec 16 × Int) (f : Frame) (w v : World) : Prop where
  calls : ∃ calls, v.trace = w.trace ++ .frame id.1 f :: calls ∧
    ∀ call ∈ calls, OwnCall id f w call
  list : v.idents = w.idents
  /-- The other records are as they were, pending requests and context included. -/
  others : ∀ d, d.ptr ≠ id.1 → (d ∈ v.server.clients ↔ d ∈ w.server.clients)
  own : ∀ c ∈ w.server.clients, c.ident = id → ∃ c' ∈ v.server.clients, c'.ident = id ∧
    (∀ r ∈ c'.reqControl.pendingRequests, r ∈ c.reqControl.pendingRequests) ∧
    ∀ r ∈ c.reqControl.pendingRequests, r ∈ c'.reqControl.pendingRequests ∨
      r.seqNum = getSeqId f.seqNum
  /-- So are the timers of their requests. -/
  timers : ∀ d ∈ w.server.clients, d.ptr ≠ id.1 → ∀ r ∈ d.reqControl.pendingRequests, ∀ e,
    (e.arg = .request r.ptr ∨ r.event = some e.id) → (e ∈ v.base.events ↔ e ∈ w.base.events)

section Frames

variable {w v : World} {c : Client} {id : Nat × BitVec 16 × Int} {f : Frame}

/-- A frame that changes no record. -/
theorem Confined.noted {calls : List Call} (hcalls : ∀ call ∈ calls, OwnCall id f w call) :
    Confined id f w { w with trace := w.trace ++ .frame id.1 f :: calls } where
  calls := ⟨calls, rfl, hcalls⟩
  list := rfl
  others := fun _ _ => Iff.rfl
  own := fun c hc hid => ⟨c, hc, hid, fun _ hr => hr, fun _ hr => Or.inl hr⟩
  timers := fun _ _ _ _ _ _ _ => Iff.rfl

/-- The id in the number that is passed on is the client's own, whatever the
    header says. -/
theorem Alone.ownCall (halone : Alone id w) (f : Frame) (context : Context) :
    OwnCall id f w (.receiveCallback id.1 (deliveredSeqNum id.2.1 (getSeqId f.seqNum)) f.payload
      context) := by
  have hcid : getClientId (deliveredSeqNum id.2.1 (getSeqId f.seqNum)) = id.2.1 :=
    getClientId_deliveredSeqNum id.2.1 f.seqNum
  refine ⟨rfl, rfl, hcid, ?_, fun v hv => ?_⟩
  · rw [← isNewRequest_eq]
    exact isNewRequest_deliveredSeqNum _ _
  · rcases hv with hshrinks | ⟨hi, hid⟩
    · exact routesTo_of_alone (halone.shrinks hshrinks) hcid
    · exact routesTo_of_alone (hi.alone hid) hcid

theorem Dispatch.confined (hi : Idle w) (ha : Apart w.endpoint) (hc : c ∈ w.server.clients)
    (h : Dispatch w c f v) : Confined c.ident f w v := by
  have halone : Alone c.ident w := hi.alone (List.mem_map_of_mem hc)
  cases h with
  | skip => exact @Confined.noted w c.ident f [] (fun _ hmem => absurd hmem List.not_mem_nil)
  | @deliver context hnew =>
      have hown : ∀ call ∈ [Call.receiveCallback c.ptr
          (deliveredSeqNum c.cid (getSeqId f.seqNum)) f.payload context],
          OwnCall c.ident f w call := by
        intro call hmem
        obtain rfl := List.mem_singleton.mp hmem
        exact halone.ownCall f context
      have hconfined := Confined.noted hown
      rw [← List.singleton_append, ← List.append_assoc] at hconfined
      exact hconfined
  | @complete req rc base calls hold htake hcalls =>
      obtain ⟨hreq, hnum, hkept, hevents, hsub⟩ := takeResponse_some htake
      refine ⟨⟨calls, rfl, ?_⟩, ?_, ?_, ?_, ?_⟩
      · intro call hmem
        rcases hcalls with rfl | rfl
        · exact absurd hmem List.not_mem_nil
        · obtain rfl := List.mem_singleton.mp hmem
          exact ⟨rfl, rfl, rfl, hnum, c, hc, rfl, hreq⟩
      · exact setClient_idents hi hc { c with reqControl := rc } rfl
      · intro d hd
        show d ∈ (w.setClient { c with reqControl := rc }).server.clients ↔ _
        refine ⟨?_, ?_⟩
        · intro hmem
          obtain ⟨d', hd', rfl⟩ := List.mem_map.mp hmem
          split_ifs with hptr
          · rw [if_pos hptr] at hd
            exact absurd rfl hd
          · exact hd'
        · intro hmem
          exact List.mem_map.mpr ⟨d, hmem, if_neg hd⟩
      · intro c' hc' hid
        obtain rfl : c' = c := hi.eq_of_ptr hc hc' (congrArg Prod.fst hid)
        refine ⟨{ c' with reqControl := rc }, setClient_mem hc rfl, rfl,
          (takeResponse_sub htake).2, fun r hr => ?_⟩
        by_cases hseq : r.seqNum = getSeqId f.seqNum
        · exact Or.inr hseq
        · exact Or.inl (hkept r hr hseq)
      · intro d hd hne r hr e hevent
        refine ⟨hsub e, fun he => hevents e he ?_⟩
        -- the event that is freed is the timer of the request of `c`
        intro hreqEvent
        have hown : e.arg = .request req.ptr := ha.timers e he c.conn (conn_mem hc) req hreq hreqEvent
        have hother : e.arg = .request r.ptr := by
          rcases hevent with harg | hid
          · exact harg
          · exact ha.timers e he d.conn (conn_mem hd) r hr hid
        have hsame : r.ptr = req.ptr := EventArg.request.inj (hother.symm.trans hown)
        exact hne (ha.tables d.conn (conn_mem hd) c.conn (conn_mem hc) r hr req hreq hsame)

end Frames

-- ============================================================================
-- A chunk
-- ============================================================================

/-- The handling of frames of the client `id`, one after the other: what the handler
    does itself is `Confined`, and in between the callbacks run.  One that releases
    the client makes the handler fault at the next response it takes. -/
inductive Handles (id : Nat × BitVec 16 × Int) : World → List Frame → Except Fault World → Prop
  | done {w : World} : Handles id w [] (.ok w)
  | silent {w v : World} {f : Frame} {fs : List Frame} {out : Except Fault World}
      (hframe : Confined id f w v) (hrest : Handles id v fs out) : Handles id w (f :: fs) out
  | callback {w v u : World} {f : Frame} {fs : List Frame} {out : Except Fault World}
      (hframe : Confined id f w v) (hrun : runCallback v = .ok u) (hquiet : Quiet v u)
      (hrest : Handles id u fs out) : Handles id w (f :: fs) out
  | failed {w v : World} {f : Frame} {fs : List Frame} {e : Fault} (hframe : Confined id f w v)
      (hrun : runCallback v = .error e) : Handles id w (f :: fs) (.error e)
  | stopped {w : World} {f : Frame} {fs : List Frame} (hgone : Gone id.1 w) :
      Handles id w (f :: fs) (.error .useAfterRelease)

/-- Inside the handler for the client `id`: it is connected, or gone. -/
inductive Handling (id : Nat × BitVec 16 × Int) (w : World) : Prop
  | live (idle : Idle w) (apart : Apart w.endpoint) (mem : id ∈ w.idents)
  | gone (gone : Gone id.1 w) (alone : Alone id w)

section Chunk

variable {w v : World} {id : Nat × BitVec 16 × Int}

theorem Idle.callback (hi : Idle w) (ha : Apart w.endpoint) (hid : id ∈ w.idents)
    (hrun : runCallback w = .ok v) : Handling id v := by
  obtain ⟨w', hw', hidle, hcalls, -⟩ := runCallback_spec hi
  obtain rfl : v = w' := Except.ok.inj (hrun.symm.trans hw')
  by_cases hmem : id ∈ v.idents
  · exact .live hidle (hcalls.steps.apart hi.sound.lives ha) hmem
  · have hshrinks := (runCallback_shrinks w).of_ok hrun
    exact .gone (gone_of_not_mem hi hid hshrinks hmem) ((hi.alone hid).shrinks hshrinks)

/-- **The frames of a chunk**, whatever they hold. -/
theorem Handling.handles (h : Handling id w) (callback : Option Callback) (context : Context)
    (fs : List Frame) :
    Handles id w fs
      (run (fun w f => handleFrame (serverReceiver id.1 id.2.1 callback context) f w) w fs) := by
  induction fs generalizing w with
  | nil => exact .done
  | cons f fs ih =>
      rw [run_cons]
      cases h with
      | live hi ha hid =>
          obtain ⟨c, hc, rfl⟩ := List.mem_map.mp hid
          obtain ⟨v, hv, hresult⟩ := handleFrame_dispatch hi hc callback context f
          have hframe := hv.confined hi ha hc
          obtain ⟨hidle, hevolves, -⟩ := hv.spec hi hc
          have hapart : Apart v.endpoint := hevolves.steps.apart hi.sound.lives ha
          have hmem : c.ident ∈ v.idents := hevolves.keeps c.ident trivial hid
          rcases hresult with hok | hcallback
          · have hok' : handleFrame (serverReceiver c.ident.1 c.ident.2.1 callback context) f w =
                .ok v := hok
            rw [hok']
            exact .silent hframe (ih (.live hidle hapart hmem))
          · have hcallback' : handleFrame (serverReceiver c.ident.1 c.ident.2.1 callback context)
                f w = runCallback v := hcallback
            rw [hcallback']
            cases hrun : runCallback v with
            | error e => exact .failed hframe hrun
            | ok u =>
                exact .callback hframe hrun ((runCallback_quiet v).of_ok hrun)
                  (ih (hidle.callback hapart hmem hrun))
      | gone hgone halone =>
          have hclient : (w.note (.frame id.1 f)).client id.1 = .error .useAfterRelease :=
            hgone.client
          simp only [handleFrame, serverReceiver]
          split_ifs
          · cases callback with
            | none =>
                refine .silent (@Confined.noted w id f []
                  (fun _ hmem => absurd hmem List.not_mem_nil)) ?_
                exact ih (.gone hgone halone)
            | some cb =>
                have hown : ∀ call ∈ [Call.receiveCallback id.1
                    (deliveredSeqNum id.2.1 (getSeqId f.seqNum)) f.payload context],
                    OwnCall id f w call := by
                  intro call hmem
                  obtain rfl := List.mem_singleton.mp hmem
                  exact halone.ownCall f context
                have hframe := Confined.noted hown
                rw [← List.singleton_append, ← List.append_assoc] at hframe
                dsimp only
                cases hrun : runCallback ((w.note (.frame id.1 f)).note (.receiveCallback id.1
                    (deliveredSeqNum id.2.1 (getSeqId f.seqNum)) f.payload context)) with
                | error e => exact .failed hframe hrun
                | ok u =>
                    have hshrinks := (runCallback_shrinks _).of_ok hrun
                    exact .callback hframe hrun ((runCallback_quiet _).of_ok hrun)
                      (ih (.gone (Gone.shrinks hgone hshrinks) (Alone.shrinks halone hshrinks)))
          · simp only [hclient, bind, Except.bind]
            exact .stopped hgone

/-- Nothing is pending before the first connection. -/
theorem apart_of_open {env : OpenEnv} {base : EventBase} {acceptCallback : Option Callback}
    {acceptContext : Context} {receiveCallback closeCallback : Option Callback} {w₀ : World}
    (hopen : afIpcsOpen env base acceptCallback acceptContext receiveCallback closeCallback =
      some w₀) : Apart w₀.endpoint := by
  rw [opened_eq hopen]
  refine ⟨?_, fun e he c hc => ?_, ?_⟩
  · exact fun c hc => absurd hc List.not_mem_nil
  · exact absurd hc List.not_mem_nil
  · exact fun c hc => absurd hc List.not_mem_nil

/-- **No client impersonates or disturbs another.**  In any state that a run of the
    server reaches, be it in the middle of a receive event that has handled earlier
    chunks, any bytes whatever that come from the client `c` are handled frame by
    frame with `c`'s id, and all that the handler does for a frame of theirs, the
    callbacks apart, is `Confined` to `c`. -/
theorem handles_of_run {env : OpenEnv} {base : EventBase} {acceptCallback : Option Callback}
    {acceptContext : Context} {receiveCallback closeCallback : Option Callback} {w₀ : World}
    (hbase : BareBase base) (hopen : afIpcsOpen env base acceptCallback acceptContext
      receiveCallback closeCallback = some w₀) {events : List ServerEvent} {u : World}
    (hrun : run serverStep w₀ events = .ok u) (script : List (List Action)) {c : Client}
    (hc : c ∈ w.server.clients) {earlier : List (List Byte)}
    (hearlier : onRecv c.ptr (earlier.map .data) { u with script := script } = .ok w)
    (bytes : List Byte) :
    ∃ R w₁, (serverHooks c.ptr).enter w = .ok (R, w₁) ∧
      w₁ = w.setClient { c with flags := c.flags ||| clientFlagsInReceive } ∧
      R.clientId = c.cid ∧
      Handles c.ident w₁ (frames.items bytes) (afIpcHandleReceiveMessage R bytes w₁) := by
  have hi₀ := idle_of_open hbase hopen
  obtain ⟨hiu, hsteps, -⟩ := (serverRun_spec hi₀ events).of_ok hrun
  have hau : Apart u.endpoint := hsteps.apart hi₀.sound.lives (apart_of_open hopen)
  -- the client was connected when the event came
  have hmemu : c.ident ∈ (World.idents { u with script := script }) :=
    (onRecv_shrinks c.ptr _ _).of_ok hearlier c.ident (List.mem_map_of_mem hc)
  obtain ⟨hi, hevolves⟩ := (onRecv_spec (S := False) (hiu.scripted script) hmemu
    (earlier.map .data) (fun hs => hs.elim)).of_ok hearlier
  have ha : Apart w.endpoint := hevolves.steps.apart hiu.sound.lives hau
  obtain ⟨hentered, henter⟩ := setFlags_spec hi hc (unmarked_enter (hi.unmarked c hc))
  have hlive : Handling c.ident
      (w.setClient { c with flags := c.flags ||| clientFlagsInReceive }) :=
    .live hentered (henter.steps.apart hi.sound.lives ha)
      (henter.keeps c.ident trivial (List.mem_map_of_mem hc))
  refine ⟨serverReceiver c.ptr c.cid w.server.receiveCallback c.clientContext, _, ?_, rfl, rfl, ?_⟩
  · simp only [serverHooks, hi.client hc, bind, Except.bind]
    rfl
  · rw [afIpcHandleReceiveMessage_eq]
    exact hlive.handles w.server.receiveCallback c.clientContext (frames.items bytes)

end Chunk

/-- Of two clients the second sends a response to the request that the first is to
    answer, with the first one's id in the header, and a request of its own. -/
theorem handles_of_run_forged :
    ∃ w₀, afIpcsOpen .good ⟨[], 0⟩ (some 1) 0 (some 2) (some 3) = some w₀ ∧
      ∃ w, run serverStep w₀ [.accept (.good 4) [], .accept (.good 5) [],
          .call (.sendRequest 1 [9] 1 (some 7) 0 1000 .good)] = .ok w ∧
        ∃ c ∈ w.server.clients, c.cid = 2 ∧ ∃ R w₁,
          (serverHooks c.ptr).enter { w with script := [] } = .ok (R, w₁) ∧
            w₁ = World.setClient { w with script := [] }
              { c with flags := c.flags ||| clientFlagsInReceive } ∧ R.clientId = c.cid ∧
            Handles c.ident w₁
              (frames.items [1, 0, 1, 0, 9, 0, 0, 0, 7, 3, 128, 1, 0, 9, 0, 0, 0, 8])
              (afIpcHandleReceiveMessage R
                [1, 0, 1, 0, 9, 0, 0, 0, 7, 3, 128, 1, 0, 9, 0, 0, 0, 8] w₁) := by
  have hbase : BareBase ⟨[], 0⟩ := fun e he => absurd he List.not_mem_nil
  have hopen : afIpcsOpen .good ⟨[], 0⟩ (some 1) 0 (some 2) (some 3) = some _ := rfl
  refine ⟨_, hopen, _, rfl, _, List.mem_cons_self, rfl, ?_⟩
  exact @handles_of_run _ _ _ _ _ _ _ _ hbase hopen
    [.accept (.good 4) [], .accept (.good 5) [],
      .call (.sendRequest 1 [9] 1 (some 7) 0 1000 .good)] _ rfl [] _ List.mem_cons_self [] rfl
    [1, 0, 1, 0, 9, 0, 0, 0, 7, 3, 128, 1, 0, 9, 0, 0, 0, 8]

end AfIpc.Ipcs
