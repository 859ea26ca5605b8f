/-
  AfIpc.Tools.Runs

  The two programs from their arguments to their exit status, whatever the server sends
  and whenever the loop is left.  Both give back what they have taken and print the reply
  made of the message they have been handed last, which for `ipc_send` is the response to
  its one request.
-/

import AfIpc.Ipc.Outcomes
import AfIpc.Tools.Dealloc
import AfIpc.Tools.Session

namespace AfIpc.Tools

open AfIpc.Lib AfIpc.Rpc AfIpc.Ipc

-- ============================================================================
-- One response
-- ============================================================================

section Response

variable {n : Nat} {w₀ : Ipcc.World} {t : Tool}

/-- No more responses are handed over than requests have been made. -/
theorem Session.responses (h : Session ipcSendDelivery ipcSendRxCallbackPtr n w₀ t) (hn : n ≤ 1)
    (hstarted : Started w₀.endpoint) :
    (messagesOf ipcSendDelivery t.world.trace).length ≤ n := by
  have hbound := h.requests.bounded hn
  have hattentive : Attentive t.world.trace := by
    intro conn fd cb context packet hmem _ hnone
    obtain ⟨_, _, _, _, heq⟩ := (h.requests.2 _ hmem).2 rfl
    injection heq with _ _ hby
    injection hby with hcb
    rw [hnone] at hcb
    cases hcb
  have hgone := (h.ran.steps.conserves hstarted hattentive).gone 0
  have hsends : requestsOn 0 t.world.trace ≤ t.world.trace.countP isSend := by
    refine List.countP_mono_left (fun c _ hc => ?_)
    cases c <;> first | rfl | cases hc
  -- the responses are those of the connection
  have hcalls : (messagesOf ipcSendDelivery t.world.trace).length ≤ callbacksOn 0 t.world.trace := by
    rw [messagesOf, List.length_filterMap_eq_countP]
    refine List.countP_mono_left (fun c hc hsome => ?_)
    cases c with
    | responseCallback conn req status seqNum payload =>
        obtain ⟨before, after, hsplit⟩ := List.append_of_mem hc
        have hrule := (h.ran.sane.sound.correlates hbound).rule before _ after hsplit
        obtain ⟨fd, packet, hsent, -⟩ := hrule.wasSent.sent
        have hmem : .sendmsg conn fd (.request req.responseCallback req.responseContext) packet true ∈
            t.world.trace := by
          have hall : t.world.trace = before ++
              .responseCallback conn req status seqNum payload :: after := hsplit
          rw [hall]
          exact List.mem_append_left _ hsent
        obtain ⟨_, _, _, _, heq⟩ := (h.requests.2 _ hmem).2 rfl
        injection heq with hconn
        exact decide_eq_true hconn
    | _ => cases hsome
  have hasked := h.requests.1
  have htrace : t.world.endpoint.trace = t.world.trace := rfl
  rw [htrace] at hgone
  omega

end Response

-- ============================================================================
-- ipc_send
-- ============================================================================

/-- An exit status is 0 if something has been printed, and 1 otherwise. -/
def Outcome.Exits (out : Outcome) : Prop := out.retVal = if out.output.isSome then 0 else 1

/-- How a program ends that has opened the connection: it prints the reply made of the last
    message that it has been handed, if there is one, and nothing of the library is
    left. -/
structure Ends (delivery : Delivery) (callback : Callback) (n : Nat) (addr : Word) (out : Outcome)
    (w : Ipcc.World) : Prop where
  output : ∀ mem, lastReply mem addr (messagesOf delivery w.trace) = .ok out.output
  released : Released w
  requests : Requests callback n w.trace

section Programs

variable {w₀ : Ipcc.World} {t : Tool} {addr : Word}

/-- A turn of the event loop of `ipc_send`: the request is made when its timer fires,
    and never again. -/
theorem ipcSendStep_session (mem : Mem) (debug4 : Bool) (params : List AfRpcParam)
    (h : Session ipcSendDelivery ipcSendRxCallbackPtr (if t.testEvent then 0 else 1) w₀ t)
    (e : SendEvent) :
    Safe NoTrapOrSignal (fun t' => Session ipcSendDelivery ipcSendRxCallbackPtr
      (if t'.testEvent then 0 else 1) w₀ t') (ipcSendStep mem debug4 params t e) := by
  have hle : (if t.testEvent then 0 else 1) ≤ 1 := by split_ifs <;> omega
  cases e with
  | recv results =>
      have hhandled := h.handle ipcSendDelivery_deaf hle (.inl ⟨results, rfl⟩)
      refine (hhandled.weaken (fun _ hbad => hbad.1)).mono (fun t' ht' => ?_)
      rw [ht'.2]
      exact ht'.1
  | timeout event =>
      have hhandled := h.handle ipcSendDelivery_deaf hle (.inr ⟨event, rfl⟩)
      refine (hhandled.weaken (fun _ hbad => hbad.1)).mono (fun t' ht' => ?_)
      rw [ht'.2]
      exact ht'.1
  | test env =>
      simp only [ipcSendStep]
      cases hevent : t.testEvent with
      | false =>
          rw [if_pos rfl]
          exact h
      | true =>
          rw [if_neg (by decide)]
          rw [hevent, if_pos rfl] at h
          have hfired : Session ipcSendDelivery ipcSendRxCallbackPtr 0 w₀
              { t with testEvent := false } :=
            ⟨h.ran, h.reported, h.script, h.sServer, h.latest, h.requests⟩
          cases hwrapper : ipcSendWrapper mem debug4 params with
          | error trap =>
              simp only [ofTrap, Except.mapError, bind, Except.bind]
              exact fun hno => hno.1 trap rfl
          | ok tx =>
              simp only [ofTrap, Except.mapError, bind, Except.bind]
              cases tx with
              | none => exact hfired.mono (Nat.zero_le 1)
              | some tx =>
                  refine (hfired.sendRequest env).mono (fun t' ht' => ?_)
                  rw [ht'.2]
                  exact ht'.1

/-- The event loop of `ipc_send`. -/
theorem ipcSend_loop {env : Ipcc.OpenEnv} {name : CString}
    (hopen : Ipcc.afIpccOpenServer env ⟨[], 0⟩ name none 0 (some onClosePtr) = .ok (some w₀))
    (mem : Mem) (debug4 : Bool) (params : List AfRpcParam) (events : List SendEvent) :
    Safe NoTrapOrSignal (Session ipcSendDelivery ipcSendRxCallbackPtr 1 w₀)
      (run (ipcSendStep mem debug4 params) (Tool.start w₀) events) := by
  have hstart : Session ipcSendDelivery ipcSendRxCallbackPtr 0 w₀ (Tool.start w₀) :=
    Session.start hopen
  have hloop : Safe NoTrapOrSignal (fun t => Session ipcSendDelivery ipcSendRxCallbackPtr
      (if t.testEvent then 0 else 1) w₀ t)
      (run (ipcSendStep mem debug4 params) (Tool.start w₀) events) :=
    Safe.run (fun t e _ ht => ipcSendStep_session mem debug4 params ht e) hstart
  refine hloop.mono (fun t ht => ht.mono ?_)
  split_ifs <;> omega

/-- What is printed, or an access outside an array. -/
theorem output_spec (mem : Mem) (addr : Word) (t : Tool) :
    Safe NoTrap (fun _ => True) (t.output mem addr) := by
  unfold Tool.output
  split_ifs
  · cases renderReply (writeMem mem addr t.received.outBuffer) addr t.received.outBuffer
      t.received.outBufferSize with
    | error trap => exact fun hno => hno trap rfl
    | ok output => trivial
  · trivial

/-- The end of a program whose connection has been opened. -/
theorem Session.ends {delivery : Delivery} {callback : Callback} {n : Nat} {w : Ipcc.World}
    {output : Option (List Byte)} {mem : Mem} (h : Session delivery callback n w₀ t)
    (haddr : addr.toNat + instrMaxLen ≤ 2 ^ 64) (houtput : t.output mem addr = .ok output)
    (hreleased : Released w)
    (hmessages : messagesOf delivery w.trace = messagesOf delivery t.world.trace)
    (hrequests : Requests callback n w.trace) :
    Ends delivery callback n addr (exitWith output w) w := by
  refine ⟨fun mem' => ?_, hreleased, hrequests⟩
  rw [h.latest.output mem haddr] at houtput
  rw [hmessages, lastReply_mem haddr h.latest mem' mem]
  cases hreply : lastReply mem addr (messagesOf delivery t.world.trace) with
  | error e =>
      rw [hreply] at houtput
      cases houtput
  | ok out =>
      rw [hreply] at houtput
      exact congrArg Except.ok (Except.ok.inj houtput)

/-- **`ipc_send`**, for any arguments, whatever the server does and whenever the loop
    is left.  It goes wrong only by an access outside an array, its own or one of
    `af_ipcc_open_server`, or by the signal that the request meets where the server has
    closed the connection.  Otherwise it uses no handle that the library has freed, and
    frees what it has allocated, once.  If it has opened the connection, it releases it
    once, with all events of the library; it has made at most one request, for which it
    has been handed at most one response; and it prints the reply made of this response,
    or exits with status 1. -/
theorem ipcSendMain_ends {malloc : Malloc} (hmalloc : Fresh malloc) (debug4 eventBase : Bool)
    (env : Ipcc.OpenEnv) (haddr : addr.toNat + instrMaxLen ≤ 2 ^ 64) (argv : List CString)
    (heap : Heap) (events : List SendEvent) :
    Safe NoTrapOrSignal (fun out : Outcome × Heap =>
      out.2.blocks = heap.blocks ∧ out.1.Exits ∧ (out.1.world = none → out.1.output = none) ∧
        ∀ w, out.1.world = some w → Ends ipcSendDelivery ipcSendRxCallbackPtr 1 addr out.1 w ∧
          (messagesOf ipcSendDelivery w.trace).length ≤ 1)
      (ipcSendMain malloc debug4 eventBase env addr argv heap events) := by
  unfold ipcSendMain
  cases hparse : parse malloc argv heap with
  | error trap =>
      simp only [ofTrap, Except.mapError, bind, Except.bind]
      exact fun hno => hno.1 trap rfl
  | ok out =>
      obtain ⟨ok, st⟩ := out
      obtain ⟨params', heap', hdealloc, hblocks, -⟩ := parse_dealloc hmalloc hparse
      have hrefused : ∀ w, (⟨1, none, none⟩ : Outcome).world = some w →
          Ends ipcSendDelivery ipcSendRxCallbackPtr 1 addr ⟨1, none, none⟩ w ∧
            (messagesOf ipcSendDelivery w.trace).length ≤ 1 := by
        intro w hw
        cases hw
      simp only [ofTrap, Except.mapError, bind, Except.bind, hdealloc]
      split_ifs
      · exact ⟨hblocks, rfl, fun _ => rfl, hrefused⟩
      · exact ⟨hblocks, rfl, fun _ => rfl, hrefused⟩
      rcases hopen : Ipcc.afIpccOpenServer env ⟨[], 0⟩ (st.name.getD .empty) none 0
        (some onClosePtr) with trap | _ | w₀
      · exact fun hno => hno.1 trap rfl
      · exact ⟨hblocks, rfl, fun _ => rfl, hrefused⟩
      · dsimp only
        have hloop := ipcSend_loop hopen st.heap.mem debug4 st.params events
        cases hrun : run (ipcSendStep st.heap.mem debug4 st.params) (Tool.start w₀) events with
        | error e =>
            rw [hrun] at hloop
            exact hloop
        | ok t =>
            have hsession := hloop.of_ok hrun
            have hspec := output_spec st.heap.mem addr t
            dsimp only
            cases houtput : t.output st.heap.mem addr with
            | error e =>
                rw [houtput] at hspec
                exact fun hbad => hspec hbad.1
            | ok output =>
                obtain ⟨w, hclose, hreleased, hmessages, hrequests⟩ :=
                  hsession.close ipcSendDelivery_deaf (Nat.le_refl 1)
                simp only [hclose]
                refine ⟨hblocks, rfl, fun hnone => (by cases hnone), fun w' hw' => ?_⟩
                obtain rfl : w = w' := Option.some.inj hw'
                refine ⟨hsession.ends haddr houtput hreleased hmessages hrequests, ?_⟩
                rw [hmessages]
                exact hsession.responses (Nat.le_refl 1) (Ipcc.started_of_open rfl hopen)

/-- A value for the witnesses: what a run that goes right returns. -/
theorem exists_ok {α : Type} {x : Except Crash α} {P : α → Bool} (h : x.toOption.any P = true) :
    ∃ a, x = .ok a ∧ P a = true := by
  cases x with
  | error e => cases h
  | ok a => exact ⟨a, rfl, h⟩

/-- `ipc_send i s -u8 7`, which the server answers with the 8 bit integer 9. -/
theorem ipcSendMain_ends_answered :
    ∃ out w, ipcSendMain bump false true ⟨true, true, 3, true, true, 0, 0⟩ 4096
        [⟨[105], by decide⟩, ⟨[115], by decide⟩, ⟨[45, 117, 56], by decide⟩, ⟨[55], by decide⟩]
        ⟨fun _ => 0, []⟩ [.test .good, .recv [.data (Frame.mk 1 [0, 5, 0x90, 0, 9]).encode]] =
        .ok out ∧ out.1.output = some [57] ∧ out.1.world = some w ∧
      Ends ipcSendDelivery ipcSendRxCallbackPtr 1 4096 out.1 w := by
  obtain ⟨out, hrun, hprints⟩ := @exists_ok (Outcome × Heap) (ipcSendMain bump false true
      ⟨true, true, 3, true, true, 0, 0⟩ 4096
      [⟨[105], by decide⟩, ⟨[115], by decide⟩, ⟨[45, 117, 56], by decide⟩, ⟨[55], by decide⟩]
      ⟨fun _ => 0, []⟩ [.test .good, .recv [.data (Frame.mk 1 [0, 5, 0x90, 0, 9]).encode]])
    (fun out => decide (out.1.output = some [57]) && out.1.world.isSome) (by decide +kernel)
  rw [Bool.and_eq_true, decide_eq_true_eq, Option.isSome_iff_exists] at hprints
  obtain ⟨houtput, w, hw⟩ := hprints
  have hends := (ipcSendMain_ends bump_fresh false true _ (by decide) _ _ _).of_ok hrun
  exact ⟨out, w, hrun, houtput, hw, (hends.2.2.2 w hw).1⟩

/-- **`ipc_wait`**, for any arguments, whatever the server sends and whenever the loop is
    left, it goes wrong only by an access outside an array, its own or one of
    `af_ipcc_open_server`.  If it has opened the connection, it releases it once and has
    sent nothing on it; and it prints the reply made of the last message it has been
    handed, however many there were, or exits with status 1. -/
theorem ipcWaitMain_ends (mem : Mem) (eventBase : Bool) (env : Ipcc.OpenEnv)
    (haddr : addr.toNat + instrMaxLen ≤ 2 ^ 64) (argv : List CString)
    (events : List (List RecvResult)) :
    Safe NoTrap (fun out : Outcome =>
      out.Exits ∧ (out.world = none → out.output = none) ∧
        ∀ w, out.world = some w → Ends ipcWaitDelivery handleReceivePtr 0 addr out w)
      (ipcWaitMain mem eventBase env addr argv events) := by
  have hrefused : ∀ w, (⟨1, none, none⟩ : Outcome).world = some w →
      Ends ipcWaitDelivery handleReceivePtr 0 addr ⟨1, none, none⟩ w := by
    intro w hw
    cases hw
  unfold ipcWaitMain
  cases ipcWaitArgs argv with
  | none => exact ⟨rfl, fun _ => rfl, hrefused⟩
  | some args =>
      dsimp only
      split_ifs
      · exact ⟨rfl, fun _ => rfl, hrefused⟩
      rcases hopen : Ipcc.afIpccOpenServer env ⟨[], 0⟩ args.1 (some handleReceivePtr) 0
        (some handleClosePtr) with trap | _ | w₀
      · exact fun hno => hno trap rfl
      · exact ⟨rfl, fun _ => rfl, hrefused⟩
      · have hstart : Session ipcWaitDelivery handleReceivePtr 0 w₀ (Tool.start w₀) :=
          Session.start hopen
        have hloop : Safe NoTrap (Session ipcWaitDelivery handleReceivePtr 0 w₀)
            (run (fun t results => t.handle ipcWaitDelivery (.recv results [])) (Tool.start w₀)
              events) :=
          Safe.run (fun t results _ ht => (ht.handle ipcWaitDelivery_deaf (Nat.zero_le 1)
            (.inl ⟨results, rfl⟩)).mono (fun t' ht' => ht'.1)) hstart
        simp only [ofTrap, Except.mapError, bind, Except.bind]
        cases hrun : run (fun t results => t.handle ipcWaitDelivery (.recv results []))
            (Tool.start w₀) events with
        | error e =>
            rw [hrun] at hloop
            exact hloop
        | ok t =>
            have hsession := hloop.of_ok hrun
            have hspec := output_spec mem addr t
            dsimp only
            cases houtput : t.output mem addr with
            | error e =>
                rw [houtput] at hspec
                exact hspec
            | ok output =>
                obtain ⟨w, hclose, hreleased, hmessages, hrequests⟩ :=
                  hsession.close ipcWaitDelivery_deaf (Nat.zero_le 1)
                simp only [hclose]
                refine ⟨rfl, fun hnone => (by cases hnone), fun w' hw' => ?_⟩
                obtain rfl : w = w' := Option.some.inj hw'
                exact hsession.ends haddr houtput hreleased hmessages hrequests

/-- `ipc_wait i s`, which the server sends the 8 bit integers 9 and 7. -/
theorem ipcWaitMain_ends_latest :
    ∃ out w, ipcWaitMain (fun _ => 0) true ⟨true, true, 3, true, true, 0, 0⟩ 4096
        [⟨[105], by decide⟩, ⟨[115], by decide⟩]
        [[.data (Frame.mk 0 [0, 5, 0x90, 0, 9]).encode],
          [.data (Frame.mk 0 [0, 5, 0x90, 0, 7]).encode]] = .ok out ∧
      out.output = some [55] ∧ out.world = some w ∧
      Ends ipcWaitDelivery handleReceivePtr 0 4096 out w := by
  obtain ⟨out, hrun, hprints⟩ := @exists_ok Outcome (ipcWaitMain (fun _ => 0) true
      ⟨true, true, 3, true, true, 0, 0⟩ 4096 [⟨[105], by decide⟩, ⟨[115], by decide⟩]
      [[.data (Frame.mk 0 [0, 5, 0x90, 0, 9]).encode],
        [.data (Frame.mk 0 [0, 5, 0x90, 0, 7]).encode]])
    (fun out => decide (out.output = some [55]) && out.world.isSome) (by decide +kernel)
  rw [Bool.and_eq_true, decide_eq_true_eq, Option.isSome_iff_exists] at hprints
  obtain ⟨houtput, w, hw⟩ := hprints
  have hends := (ipcWaitMain_ends (fun _ => 0) true _ (by decide) _ _).of_ok hrun
  exact ⟨out, w, hrun, houtput, hw, hends.2.2 w hw⟩

end Programs

end AfIpc.Tools
