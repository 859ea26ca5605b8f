/-
  AfIpc.Ipcs.Runs

  Runs of the server.  Between two events the server is `Idle`, and every event
  is steps of the endpoint.  A run goes wrong where a callback releases the client
  whose event is being handled: `SparesServed` is the condition that none does.
-/

import AfIpc.Ipcs.Accept

namespace AfIpc.Ipcs

open AfIpc.Lib AfIpc.Ipc

-- ============================================================================
-- Timeouts
-- ============================================================================

section Timeout

variable {w : World}

theorem ownerOf_mem {ptr : Nat} {c : Client} (h : w.ownerOf ptr = some c) :
    c ∈ w.server.clients ∧ ∃ r ∈ c.reqControl.pendingRequests, r.ptr = ptr := by
  refine ⟨List.mem_of_find?_eq_some h, ?_⟩
  have hany := List.find?_some h
  simpa using hany

/-- A timer that fires is a step. -/
theorem timeout_spec (hi : Idle w) {c : Client} (hc : c ∈ w.server.clients) {event ptr : Nat}
    {req : Request} {rc : ReqControl} {base : EventBase} {calls : List Call}
    (hout : afIpcOnTimeout ptr c.reqControl (timerFired event w.base) = .ok (req, rc, base))
    (hcalls : calls = [] ∨ calls = [.responseCallback c.ptr req statusTimeout 0 []])
    (hheard : calls = [] → req.responseCallback = none) :
    Idle { (w.setClient { c with reqControl := rc }).setBase base with trace := w.trace ++ calls } ∧
      Evolves w { (w.setClient { c with reqControl := rc }).setBase base with
        trace := w.trace ++ calls } [] (fun _ => True) := by
  have hstep : w.endpoint.Step (World.endpoint
      { (w.setClient { c with reqControl := rc }).setBase base with trace := w.trace ++ calls }) := by
    have htimeout := Endpoint.Step.timeout (conn_mem hc) hout hcalls hheard
    have hset := setClient_endpoint w { c with reqControl := rc }
    have hsame : World.endpoint { (w.setClient { c with reqControl := rc }).setBase base with
        trace := w.trace ++ calls } =
        ((w.setClient { c with reqControl := rc }).endpoint.setBase base).note calls := rfl
    rw [hsame, hset]
    exact htimeout
  have hsteps : w.endpoint.Steps _ := .single hstep
  refine ⟨⟨hsteps.sound hi.sound, hi.unlocked, ?_, ?_⟩, ⟨hsteps, ?_, ?_, rfl⟩⟩
  · refine setClient_all hi.fds ?_
    exact hi.fds c hc
  · refine setClient_all hi.unmarked ?_
    exact hi.unmarked c hc
  · show takenOf (w.trace ++ calls) = _
    rw [takenOf_append]
    rcases hcalls with rfl | rfl <;> rfl
  · intro id _ hid
    have hidents := setClient_idents hi hc { c with reqControl := rc } rfl
    show id ∈ (w.setClient { c with reqControl := rc }).idents
    rw [hidents]
    exact hid

/-- **A timer** that fires runs one callback at most, and touches no client that
    has been released. -/
theorem onTimeout_spec (hi : Idle w) (event : Nat) :
    Safe (fun e => e = .useAfterRelease)
      (fun w' => Idle w' ∧ Evolves w w' [] (fun _ => False)) (onTimeout event w) := by
  unfold onTimeout
  cases htimer : w.base.timerOf event with
  | none => exact ⟨hi, .refl w _⟩
  | some ptr =>
      dsimp only
      cases howner : w.ownerOf ptr with
      | none => exact fun hbad => by cases hbad
      | some c =>
          obtain ⟨hc, _⟩ := ownerOf_mem howner
          dsimp only
          cases hout : afIpcOnTimeout ptr c.reqControl (timerFired event w.base) with
          | error e =>
              obtain rfl := afIpcOnTimeout_error hout
              exact fun hbad => by cases hbad
          | ok out =>
              obtain ⟨req, rc, base⟩ := out
              simp only [bind, Except.bind]
              cases hcb : req.responseCallback with
              | none =>
                  obtain ⟨hidle, hevolves⟩ := timeout_spec hi hc hout (.inl rfl) (fun _ => hcb)
                  rw [List.append_nil] at hidle hevolves
                  exact ⟨hidle, hevolves.mono fun _ hf => hf.elim⟩
              | some cb =>
                  obtain ⟨hidle, hevolves⟩ := timeout_spec hi hc hout (.inr rfl)
                    (fun hnil => by cases hnil)
                  obtain ⟨w', hw', hidle', hcalls, _⟩ := runCallback_spec hidle
                  have hrun : runCallback (((w.setClient { c with reqControl := rc }).setBase
                      base).note (.responseCallback c.ptr req statusTimeout 0 [])) = .ok w' := hw'
                  simp only [hrun]
                  exact ⟨hidle', (hevolves.mono fun _ hf => hf.elim).trans
                    (hcalls.mono fun _ hf => hf.elim)⟩

end Timeout

-- ============================================================================
-- Events
-- ============================================================================

/-- No callback of the event releases the client that the event is about. -/
def SparesServed (w : World) : ServerEvent → Prop
  | .accept env script => Greets w env → ∀ cid,
      getNextCid w.server.clients 65536 w.server.lastCid = .ok cid →
        Spares (script.take 1) (w.newClient env cid).ident
  | .recv ptr results script =>
    ∀ id ∈ w.idents, id.1 = ptr → Spares (entriesFor results script) id
  | .timeout _ _ => True
  | .call _ => True

/-- The frames that an event brings. -/
def framesOf (w : World) : ServerEvent → List (Nat × Frame)
  | .recv ptr results _ =>
    if watches w.base ptr then ((chunksOf results).flatMap frames.items).map (Prod.mk ptr) else []
  | _ => []

section Events

variable {w : World}

theorem Idle.scripted (hi : Idle w) (script : List (List Action)) :
    Idle { w with script := script } :=
  ⟨hi.sound, hi.unlocked, hi.fds, hi.unmarked⟩

/-- An event that fires for a client finds it connected. -/
theorem Idle.watched (hi : Idle w) {ptr : Nat} (hwatch : watches w.base ptr = true) :
    ∃ id ∈ w.idents, id.1 = ptr := by
  obtain ⟨e, he, hfires⟩ := List.any_eq_true.mp hwatch
  have harg : e.arg = .client ptr := by
    have hboth : e.arg = .client ptr ∧ e.added = true := by simpa using hfires
    exact hboth.1
  obtain ⟨d, hd, hptr, _⟩ := hi.sound.lives.watched e he ptr harg
  obtain ⟨c, hc, rfl⟩ := List.mem_map.mp hd
  exact ⟨c.ident, List.mem_map_of_mem hc, hptr⟩

/-- **An event** goes wrong only where it releases the client it is about. -/
theorem serverStep_spec (hi : Idle w) (ev : ServerEvent) :
    Safe (fun e => SparesServed w ev ∧ e = .useAfterRelease)
      (fun w' => Idle w' ∧ Evolves w w' (framesOf w ev) (fun _ => False)) (serverStep w ev) := by
  cases ev with
  | accept env script =>
      have haccept := @onAccept_spec _ env (SparesServed w (.accept env script))
        (hi.scripted script) (fun hs hgreets cid hcid => hs ⟨hgreets.good, hgreets.event,
          hgreets.callback⟩ cid hcid)
      exact haccept.mono fun w' hw' => ⟨hw'.1, ⟨hw'.2.steps, hw'.2.taken, hw'.2.keeps, hw'.2.flags⟩⟩
  | recv ptr results script =>
      simp only [serverStep, framesOf]
      by_cases hwatch : watches w.base ptr = true
      · rw [if_pos hwatch, if_pos hwatch]
        obtain ⟨id, hid, rfl⟩ := hi.watched hwatch
        have hrecv := onRecv_spec (S := SparesServed w (.recv id.1 results script))
          (hi.scripted script) hid results (fun hs => hs id hid rfl)
        refine (hrecv.weaken (fun e he => he.1)).mono fun w' hw' => ?_
        exact ⟨hw'.1, ⟨hw'.2.steps, hw'.2.taken, fun _ hf => False.elim hf, hw'.2.flags⟩⟩
      · rw [if_neg hwatch, if_neg hwatch]
        exact ⟨hi, .refl w _⟩
  | timeout event script =>
      have htimeout := onTimeout_spec (hi.scripted script) event
      refine (htimeout.weaken (fun e he => he.2)).mono fun w' hw' => ?_
      exact ⟨hw'.1, ⟨hw'.2.steps, hw'.2.taken, hw'.2.keeps, hw'.2.flags⟩⟩
  | call action =>
      obtain ⟨w', hw', hidle, hevolves, _⟩ := runAction_spec hi action
      show Safe _ _ (runAction w action)
      rw [hw']
      exact ⟨hidle, hevolves.mono fun _ hf => hf.elim⟩

/-- **A run** is steps of the endpoint, between states that are idle. -/
theorem serverRun_spec (hi : Idle w) (events : List ServerEvent) :
    Safe anyFault (fun w' => Idle w' ∧ w.endpoint.Steps w'.endpoint ∧
      w'.server.flags = w.server.flags) (run serverStep w events) := by
  refine Safe.run (I := fun w' => Idle w' ∧ w.endpoint.Steps w'.endpoint ∧
    w'.server.flags = w.server.flags) (fun v ev _ hv => ?_) ⟨hi, .refl, rfl⟩
  obtain ⟨hidle, hsteps, hflags⟩ := hv
  have hstep := serverStep_spec hidle ev
  refine (hstep.weaken (fun _ hf => False.elim hf)).mono fun w' hw' => ?_
  exact ⟨hw'.1, hsteps.trans hw'.2.steps, hw'.2.flags.trans hflags⟩

end Events

-- ============================================================================
-- Opening
-- ============================================================================

/-- What the event base of a server may hold before: no event of a client or of a
    request. -/
def BareBase (base : EventBase) : Prop := base.All (fun id arg => id < base.next ∧ arg = .server)

section Open

variable {env : OpenEnv} {base : EventBase} {acceptCallback : Option Callback}
  {acceptContext : Context} {receiveCallback closeCallback : Option Callback} {w₀ : World}

theorem opened_eq (hopen : afIpcsOpen env base acceptCallback acceptContext receiveCallback
    closeCallback = some w₀) :
    w₀ = { server :=
            { serverFd := env.serverFd, serverListenerEvent := some base.next, clntMutex := false,
              clients := [], lastCid := 0, flags := 0, acceptCallback := acceptCallback,
              acceptContext := acceptContext, receiveCallback := receiveCallback,
              closeCallback := closeCallback }
           base := eventAdd base.next (eventNew .server base).2, script := [], trace := [] } := by
  unfold afIpcsOpen at hopen
  split_ifs at hopen
  exact (Option.some.inj hopen).symm

theorem started_of_open (hbase : BareBase base) (hopen : afIpcsOpen env base acceptCallback
    acceptContext receiveCallback closeCallback = some w₀) : Started w₀.endpoint := by
  obtain rfl := opened_eq hopen
  have hold : base.All (fun id arg => id < base.next + 1 ∧ arg = .server) :=
    hbase.mono (fun id arg h => ⟨Nat.lt_succ_of_lt h.1, h.2⟩)
  have hevents : (eventAdd base.next (eventNew .server base).2).All
      (fun id arg => id < base.next + 1 ∧ arg = .server) :=
    (hold.eventNew ⟨Nat.lt_succ_self _, rfl⟩).eventAdd _
  exact ⟨rfl, fun c hc => absurd hc List.not_mem_nil, List.nodup_nil, List.nodup_nil, rfl, hevents⟩

theorem idle_of_open (hbase : BareBase base) (hopen : afIpcsOpen env base acceptCallback
    acceptContext receiveCallback closeCallback = some w₀) : Idle w₀ := by
  have hsound := (started_of_open hbase hopen).sound
  obtain rfl := opened_eq hopen
  exact ⟨hsound, rfl, fun c hc => absurd hc List.not_mem_nil,
    fun c hc => absurd hc List.not_mem_nil⟩

/-- **The server's clients outlive the handling of their events.**  In a run from a
    successful open in which no callback releases the client whose event is being
    handled, whatever else the callbacks and the peers do, no step touches a client
    after its release; and in every run without a fault, whatever the callbacks do,
    each client is released and reported closed at most once. -/
theorem serverRun_safe (hbase : BareBase base) (hopen : afIpcsOpen env base acceptCallback
    acceptContext receiveCallback closeCallback = some w₀) (events : List ServerEvent) :
    (Conforms serverStep SparesServed w₀ events →
      run serverStep w₀ events ≠ .error .useAfterRelease) ∧
      ∀ w, run serverStep w₀ events = .ok w →
        ∀ p, closesOf p w.trace ≤ 1 ∧ releasesOf p w.trace ≤ 1 := by
  have hidle := idle_of_open hbase hopen
  refine ⟨?_, ?_⟩
  · intro hconf
    have hsafe : Safe (fun e => e = .useAfterRelease) Idle (run serverStep w₀ events) := by
      refine Safe.run_conforms (fun v ev hv hev => ?_) hidle hconf
      refine ((serverStep_spec hv ev).weaken (fun e he => ⟨hev, he⟩)).mono fun w' hw' => ?_
      exact hw'.1
    exact hsafe.not_error rfl
  · intro w hw
    have hrun := serverRun_spec hidle events
    exact (hrun.of_ok hw).1.sound.lives.once

end Open

/-- Every call of `af_ipcs_open` succeeds. -/
def OpenEnv.good : OpenEnv := ⟨true, true, true, 3, true, true, true, true, true, true⟩

/-- A client on the descriptor `fd`. -/
def AcceptEnv.good (fd : Int) : AcceptEnv := ⟨fd, true, true, 0, true, 0⟩

/-- A chunk of one frame: the request numbered 1, with the payload 7. -/
def requestChunk : List Byte := (Frame.mk 0x8001 [7]).encode

/-- A client whose request is answered from the receive callback. -/
theorem serverRun_safe_answer :
    ∃ w₀, afIpcsOpen .good ⟨[], 0⟩ (some 1) 0 (some 2) (some 3) = some w₀ ∧
      run serverStep w₀ [.accept (.good 4) [],
        .recv 1 [.data requestChunk] [[.sendResponse 0x10001 [8] 1 .good]]] ≠
          .error .useAfterRelease ∧
      ∀ w, run serverStep w₀ [.accept (.good 4) [],
        .recv 1 [.data requestChunk] [[.sendResponse 0x10001 [8] 1 .good]]] = .ok w →
          ∀ p, closesOf p w.trace ≤ 1 ∧ releasesOf p w.trace ≤ 1 := by
  have hbase : BareBase ⟨[], 0⟩ := fun e he => absurd he List.not_mem_nil
  have hopen : afIpcsOpen .good ⟨[], 0⟩ (some 1) 0 (some 2) (some 3) = some _ := rfl
  refine ⟨_, hopen, ?_⟩
  obtain ⟨hsafe, honce⟩ := serverRun_safe hbase hopen [.accept (.good 4) [],
    .recv 1 [.data requestChunk] [[.sendResponse 0x10001 [8] 1 .good]]]
  refine ⟨hsafe ⟨?_, fun v _ => ⟨?_, fun v' _ => trivial⟩⟩, honce⟩
  · intro _ cid _ actions hactions
    exact absurd hactions List.not_mem_nil
  · intro id _ _ actions hactions a ha
    replace hactions := List.mem_of_mem_take hactions
    rw [List.mem_singleton] at hactions
    subst hactions
    rw [List.mem_singleton] at ha
    subst ha
    simp [Action.releases, sendSucceeds, SendEnv.good, oversize, sizeT, maxMsglen, msghdrLen]

/-- The receive callback closes the client it was called for, as the header allows:
    `on_recv` then clears its flag in released memory. -/
theorem closeServed_touches_released :
    ∃ w₀, afIpcsOpen .good ⟨[], 0⟩ (some 1) 0 (some 2) (some 3) = some w₀ ∧
      run serverStep w₀ [.accept (.good 4) [],
        .recv 1 [.data requestChunk] [[.closeClient 1]]] = .error .useAfterRelease :=
  ⟨_, rfl, rfl⟩

end AfIpc.Ipcs
