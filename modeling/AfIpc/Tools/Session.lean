/-
  AfIpc.Tools.Session

  What a program keeps from one turn of its event loop to the next (`Session`).  It has
  asked for one thing at most, `s_server` is NULL exactly if the connection has been
  closed, so that it never uses a handle that the library has freed, and its variables
  are those of the messages that it has been handed.
-/

import AfIpc.Ipcc.Reported
import AfIpc.System.Timers
import AfIpc.Tools.Latest

namespace AfIpc.Tools

open AfIpc.Lib AfIpc.Rpc AfIpc.Ipc

-- ============================================================================
-- What the library does by itself
-- ============================================================================

def isSend : Call → Bool
  | .sendmsg _ _ _ _ _ => true
  | _ => false

/-- Nothing is sent and no connection accepted. -/
def Mute (calls : List Call) : Prop := ∀ c ∈ calls, isSend c = false ∧ c.isAccept = false

theorem mute_nil : Mute [] := fun _ hc => absurd hc List.not_mem_nil

theorem mute_append {calls more : List Call} (h : Mute calls) (h' : Mute more) :
    Mute (calls ++ more) := by
  intro c hc
  rcases List.mem_append.mp hc with hc | hc
  · exact h c hc
  · exact h' c hc

/-- What happens adds such calls, and no calls of callbacks to come. -/
structure Makes (P : List Call → Prop) (w w' : Ipcc.World) : Prop where
  script : w'.script = w.script
  trace : ∃ calls, w'.trace = w.trace ++ calls ∧ P calls

section Library

variable {w w' : Ipcc.World}

theorem closeCalls_mute (status : Int) (s : Ipcc.Server) : Mute (Ipcc.closeCalls status s) := by
  unfold Ipcc.closeCalls
  split_ifs <;> simp [Mute, isSend, Call.isAccept]

theorem closeAndFreeServer_mute {status : Int}
    (hclose : Ipcc.closeAndFreeServer status w = .ok w') : Makes Mute w w' := by
  have hcloses := Ipcc.closeAndFreeServer_closes hclose
  obtain ⟨s, calls, -, htrace, hsub⟩ := hcloses.trace
  exact ⟨hcloses.script, calls, htrace, fun c hc => closeCalls_mute status s c (hsub.subset hc)⟩

/-- Without calls of callbacks to come, an event sends nothing. -/
theorem keptByEvents_mute :
    Ipcc.KeptByEvents (fun w w' => w.script = [] → Makes Mute w w') where
  refl := fun w _ => ⟨rfl, [], (List.append_nil _).symm, mute_nil⟩
  trans := by
    intro u v w huv hvw hscript
    obtain ⟨hfirst, calls, htrace, hmute⟩ := huv hscript
    obtain ⟨hsecond, more, htrace', hmute'⟩ := hvw (hfirst.trans hscript)
    refine ⟨hsecond.trans hfirst, calls ++ more, ?_, mute_append hmute hmute'⟩
    rw [htrace', htrace, List.append_assoc]
  observe := by
    intro w c hc _
    refine ⟨rfl, [c], rfl, fun d hd => ?_⟩
    obtain rfl := List.mem_singleton.mp hd
    cases d <;> first | exact ⟨rfl, rfl⟩ | cases hc
  write := fun w _ _ _ _ _ =>
    ⟨rfl, [], (List.append_nil _).symm, mute_nil⟩
  setBase := fun w _ _ =>
    ⟨rfl, [], (List.append_nil _).symm, mute_nil⟩
  close := fun _ _ _ hclose _ => closeAndFreeServer_mute hclose
  callback := by
    intro w w' hcall hscript
    rw [Ipcc.runCallback, hscript] at hcall
    obtain rfl := Except.ok.inj hcall
    exact ⟨rfl, [], (List.append_nil _).symm, mute_nil⟩

/-- Up to `n` requests are sent, or tried to be, with the callback and nothing else. -/
def Requests (callback : Callback) (n : Nat) (calls : List Call) : Prop :=
  calls.countP isSend ≤ n ∧ ∀ c ∈ calls, c.isAccept = false ∧ (isSend c = true →
    ∃ fd packet ok context, c = .sendmsg 0 fd (.request (some callback) context) packet ok)

theorem Requests.append {callback : Callback} {n m : Nat} {calls more : List Call}
    (h : Requests callback n calls) (h' : Requests callback m more) :
    Requests callback (n + m) (calls ++ more) := by
  refine ⟨?_, fun c hc => ?_⟩
  · rw [List.countP_append]
    exact Nat.add_le_add h.1 h'.1
  · rcases List.mem_append.mp hc with hc | hc
    · exact h.2 c hc
    · exact h'.2 c hc

theorem Mute.requests {calls : List Call} (h : Mute calls) (callback : Callback) :
    Requests callback 0 calls := by
  refine ⟨?_, fun c hc => ⟨(h c hc).2, fun hsend => ?_⟩⟩
  · rw [Nat.le_zero, List.countP_eq_zero]
    intro c hc
    rw [(h c hc).1]
    exact Bool.false_ne_true
  · rw [(h c hc).1] at hsend
    cases hsend

theorem sendRequest_requests {txBuffer : List Byte} {txBufferSize : Int} {callback : Callback}
    {context : Context} {timeoutMs : Int} {env : SendEnv} {reply : Reply}
    (hsend : Ipcc.afIpccSendRequest txBuffer txBufferSize (some callback) context timeoutMs env w =
      .ok (reply, w')) : Makes (Requests callback 1) w w' := by
  have hnone : Requests callback 1 [] :=
    ⟨Nat.zero_le 1, fun c hc => absurd hc List.not_mem_nil⟩
  cases hs : w.server with
  | none =>
      simp only [Ipcc.afIpccSendRequest, Ipcc.World.deref, hs, bind, Except.bind] at hsend
      cases hsend
  | some s =>
      simp only [Ipcc.afIpccSendRequest, Ipcc.deref_eq hs, bind, Except.bind] at hsend
      generalize afIpcSend (some s.reqControl) w.base 0 txBuffer txBufferSize (some callback) context
        timeoutMs env = r at hsend
      by_cases hfd : s.fd < 0
      · rw [if_pos hfd] at hsend
        obtain ⟨-, rfl⟩ := Prod.mk.inj (Except.ok.inj hsend)
        exact ⟨rfl, [], (List.append_nil _).symm, hnone⟩
      rw [if_neg hfd] at hsend
      simp only [Ipcc.sendOrClose] at hsend
      -- the request, if a packet has been made
      have hsent : Requests callback 1 (sendCalls 0 s.fd (.request (some callback) context) r.packet
          env.sendmsg) := by
        cases r.packet with
        | none => exact hnone
        | some packet =>
            refine ⟨Nat.le_refl 1, fun c hc => ?_⟩
            obtain rfl := List.mem_singleton.mp hc
            exact ⟨rfl, fun _ => ⟨_, _, _, _, rfl⟩⟩
      rw [Ipcc.noteSend_eq] at hsend
      by_cases hret : r.ret < 0
      · rw [if_pos hret, bind_eq_ok] at hsend
        obtain ⟨v, hclose, hv⟩ := hsend
        obtain ⟨-, rfl⟩ := Prod.mk.inj (Except.ok.inj hv)
        obtain ⟨hscript, calls, htrace, hmute⟩ := closeAndFreeServer_mute hclose
        refine ⟨hscript, _, ?_, hsent.append (hmute.requests callback)⟩
        rw [htrace, ← List.append_assoc]
        rfl
      · rw [if_neg hret] at hsend
        obtain ⟨-, rfl⟩ := Prod.mk.inj (Except.ok.inj hsend)
        exact ⟨rfl, _, rfl, hsent⟩

end Library

-- ============================================================================
-- What the callbacks do
-- ============================================================================

/-- The messages that the callbacks have been handed, in order. -/
def messagesOf (delivery : Delivery) (trace : List Call) : List (List Byte) :=
  trace.filterMap (fun c => (delivery c).join)

theorem messagesOf_append (delivery : Delivery) (t u : List Call) :
    messagesOf delivery (t ++ u) = messagesOf delivery t ++ messagesOf delivery u :=
  List.filterMap_append

/-- Nothing that is called to close the connection hands over a message. -/
def Deaf (delivery : Delivery) : Prop := ∀ c : Call, c.closing 0 = true → delivery c = none

theorem ipcSendDelivery_deaf : Deaf ipcSendDelivery := by
  intro c hc
  cases c <;> first | rfl | cases hc

theorem ipcWaitDelivery_deaf : Deaf ipcWaitDelivery := by
  intro c hc
  cases c <;> first | rfl | cases hc

theorem Deaf.messagesOf {delivery : Delivery} (hdeaf : Deaf delivery) {calls : List Call}
    (h : ∀ c ∈ calls, c.closing 0 = true) : messagesOf delivery calls = [] := by
  refine List.filterMap_eq_nil_iff.mpr (fun c hc => ?_)
  rw [hdeaf c (h c hc)]
  rfl

/-- Anything but an access outside an array. -/
def NoTrap (e : Crash) : Prop := ∀ t, e ≠ .trap t

/-- Anything but an access outside an array and the signal. -/
def NoTrapOrSignal (e : Crash) : Prop := NoTrap e ∧ e ≠ .sigpipe

/-- What the calls do to the variables. -/
structure Hears (delivery : Delivery) (calls : List Call) (t t' : Tool) : Prop where
  world : t'.world = t.world
  testEvent : t'.testEvent = t.testEvent
  sServer : t'.sServer = true ↔ t.sServer = true ∧ closesOf 0 calls = 0
  latest : ∀ ps, Latest ps t.received → Latest (ps ++ messagesOf delivery calls) t'.received

section Hears

variable {delivery : Delivery} {t : Tool}

theorem hear_spec (hdeaf : Deaf delivery) (t : Tool) (c : Call) :
    Safe NoTrap (Hears delivery [c] t) (t.hear delivery c) := by
  unfold Tool.hear
  cases hdata : delivery c with
  | some data =>
      have hopen : c.isClose 0 = false := by
        rw [← Bool.not_eq_true]
        intro hclose
        have hclosing : c.closing 0 = true := by
          cases c <;> first | exact hclose | cases hclose
        rw [hdeaf c hclosing] at hdata
        cases hdata
      cases hrx : rxCallback data t.received with
      | error e =>
          simp only [hrx, ofTrap, Except.mapError, bind, Except.bind]
          exact fun hno => hno e rfl
      | ok received =>
          simp only [hrx, ofTrap, Except.mapError, bind, Except.bind]
          refine ⟨rfl, rfl, ?_, fun ps hps => ?_⟩
          · have hcount : closesOf 0 [c] = 0 := by
              rw [← List.nil_append [c], closesOf_concat, hopen]
              rfl
            rw [hcount]
            exact (and_iff_left rfl).symm
          · have hone : messagesOf delivery [c] = data.toList := by
              simp only [messagesOf, List.filterMap_cons, List.filterMap_nil, hdata,
                Option.join_some]
              cases data <;> rfl
            rw [hone]
            exact hps.receive hrx
  | none =>
      have hnone : messagesOf delivery [c] = [] := by
        simp only [messagesOf, List.filterMap_cons, List.filterMap_nil, hdata, Option.join_none]
      have hquiet : c.isClose 0 = false → Hears delivery [c] t t := by
        intro hopen
        have hcount : closesOf 0 [c] = 0 := by
          rw [← List.nil_append [c], closesOf_concat, hopen]
          rfl
        refine ⟨rfl, rfl, ?_, fun ps hps => ?_⟩
        · rw [hcount]
          exact (and_iff_left rfl).symm
        · rw [hnone, List.append_nil]
          exact hps
      cases c with
      | closeCallback conn status cid context =>
          cases conn with
          | zero =>
              refine ⟨rfl, rfl, iff_of_false (fun h => by cases h) (fun h => ?_), fun ps hps => ?_⟩
              · exact absurd h.2 Nat.one_ne_zero
              · rw [hnone, List.append_nil]
                exact hps
          | succ conn => exact hquiet rfl
      | _ => exact hquiet rfl

/-- **The callbacks of one event**, in the order in which they are called. -/
theorem hears_run (hdeaf : Deaf delivery) (t : Tool) (calls : List Call) :
    Safe NoTrap (Hears delivery calls t) (run (Tool.hear delivery) t calls) := by
  induction calls generalizing t with
  | nil =>
      refine ⟨rfl, rfl, (and_iff_left rfl).symm, fun ps hps => ?_⟩
      have hnone : messagesOf delivery [] = [] := rfl
      rw [hnone, List.append_nil]
      exact hps
  | cons c calls ih =>
      refine (hear_spec hdeaf t c).bind (fun u hu => (ih u).mono (fun v hv => ?_))
      refine ⟨hv.world.trans hu.world, hv.testEvent.trans hu.testEvent, ?_, fun ps hps => ?_⟩
      · have hcons : closesOf 0 (c :: calls) = closesOf 0 [c] + closesOf 0 calls :=
          closesOf_append 0 [c] calls
        rw [hv.sServer, hu.sServer, hcons, Nat.add_eq_zero_iff, and_assoc]
      · have hall := hv.latest _ (hu.latest ps hps)
        rw [List.append_assoc, ← messagesOf_append] at hall
        exact hall

end Hears

-- ============================================================================
-- The invariant
-- ============================================================================

/-- A program between two events.  `n` bounds the requests that it has made. -/
structure Session (delivery : Delivery) (callback : Callback) (n : Nat) (w₀ : Ipcc.World)
    (t : Tool) : Prop where
  ran : Ipcc.Ran w₀ t.world
  reported : Ipcc.Reported t.world
  script : t.world.script = []
  /-- `s_server` is NULL exactly behind the close callback. -/
  sServer : t.sServer = true ↔ closesOf 0 t.world.trace = 0
  latest : Latest (messagesOf delivery t.world.trace) t.received
  requests : Requests callback n t.world.trace

section Session

variable {delivery : Delivery} {callback : Callback} {n m : Nat} {w₀ : Ipcc.World} {t : Tool}

theorem Requests.bounded {trace : List Call} (h : Requests callback n trace) (hn : n ≤ 1) :
    Bounded trace where
  requests := by
    intro conn
    have hle : requestsOn conn trace ≤ trace.countP isSend := by
      refine List.countP_mono_left (fun c _ hc => ?_)
      cases c <;> first | rfl | cases hc
    have hcount := h.1
    omega
  accepts := by
    have hnone : acceptsOf trace = 0 := by
      rw [acceptsOf, List.countP_eq_zero]
      intro c hc
      rw [(h.2 c hc).1]
      exact Bool.false_ne_true
    rw [hnone]
    decide

theorem Session.start {env : Ipcc.OpenEnv} {name : CString} {receiveCallback : Option Callback}
    {receiveContext : Context} {closeCallback : Callback}
    (hopen : Ipcc.afIpccOpenServer env ⟨[], 0⟩ name receiveCallback receiveContext
      (some closeCallback) = .ok (some w₀)) : Session delivery callback 0 w₀ (Tool.start w₀) := by
  obtain ⟨hquiet, hsane⟩ := Ipcc.sane_of_open rfl hopen
  have hreported := Ipcc.reported_of_open hopen
  obtain ⟨-, rfl⟩ := Ipcc.opened_eq hopen
  exact ⟨⟨hquiet, hsane, .refl, fun s hs => ⟨s, hs, rfl⟩⟩, hreported, rfl,
    iff_of_true rfl rfl, latest_start, mute_nil.requests callback⟩

/-- The library has run, and its callbacks are run. -/
theorem Session.after (h : Session delivery callback n w₀ t) (hdeaf : Deaf delivery)
    {w : Ipcc.World} {e : Ipcc.ClientEvent} (hstepped : Ipcc.Stepped t.world e w)
    (hreported : Ipcc.Reported w) (hmakes : Makes (Requests callback m) t.world w) :
    Safe NoTrap (fun t' => Session delivery callback (n + m) w₀ t' ∧ t'.testEvent = t.testEvent)
      (t.after delivery w) := by
  obtain ⟨fs, hevolves, -⟩ := hstepped.evolves
  obtain ⟨hscript, calls, htrace, hrequests⟩ := hmakes
  have hcalls : w.trace.drop t.world.trace.length = calls := by
    rw [htrace, List.drop_left]
  rw [Tool.after, hcalls]
  refine (hears_run hdeaf { t with world := w } calls).mono (fun t' ht' => ⟨?_, ht'.testEvent⟩)
  have hworld : t'.world = w := ht'.world
  refine ⟨?_, ?_, ?_, ?_, ?_, ?_⟩
  · rw [hworld]
    refine ⟨hstepped.quiet, hstepped.sane, h.ran.steps.trans hevolves.steps, fun s hs => ?_⟩
    obtain ⟨u, hu, heq⟩ := hevolves.keeps s hs
    obtain ⟨s₀, hs₀, heq'⟩ := h.ran.keeps u hu
    exact ⟨s₀, hs₀, heq.trans heq'⟩
  · rw [hworld]
    exact hreported
  · rw [hworld, hscript]
    exact h.script
  · have hbefore := h.sServer
    have hnow : t'.sServer = true ↔ t.sServer = true ∧ closesOf 0 calls = 0 := ht'.sServer
    rw [hnow, hbefore, hworld, htrace, closesOf_append]
    omega
  · rw [hworld, htrace, messagesOf_append]
    exact ht'.latest _ h.latest
  · rw [hworld, htrace]
    exact h.requests.append hrequests

/-- An event of the library ends without a fault: the callbacks do not end the
    connection, and a timer that fires is that of the request. -/
theorem Session.event (h : Session delivery callback n w₀ t) (hn : n ≤ 1) {e : Ipcc.ClientEvent}
    (he : (∃ results, e = .recv results []) ∨ ∃ event, e = .timeout event []) :
    ∃ w, Ipcc.clientStep t.world e = .ok w ∧ Ipcc.Stepped t.world e w ∧ Ipcc.Reported w ∧
      Makes Mute t.world w := by
  have hscripted : t.world.script = [] → Makes Mute t.world { t.world with script := [] } :=
    fun hscript => ⟨hscript.symm, [], (List.append_nil _).symm, mute_nil⟩
  have hspec := Ipcc.clientStep_spec h.ran.quiet h.ran.sane e
  have hreports := Ipcc.clientStep_reports h.reported e
  rcases he with ⟨results, rfl⟩ | ⟨event, rfl⟩
  · have hmute := keptByEvents_mute.clientStep_recv hscripted results
    cases hstep : Ipcc.clientStep t.world (.recv results []) with
    | ok w =>
        exact ⟨w, rfl, hspec.of_ok hstep, hreports.of_ok hstep, hmute.of_ok hstep h.script⟩
    | error f =>
        rw [hstep] at hspec hmute
        have hspares : Ipcc.SparesConnection (.recv results []) :=
          fun _ hactions => absurd (List.mem_of_mem_take hactions) List.not_mem_nil
        exact absurd ⟨hspares, not_not.mp hmute⟩ hspec
  · have hmute := keptByEvents_mute.clientStep_timeout hscripted event
    have hstep : ∃ w, Ipcc.clientStep t.world (.timeout event []) = .ok w := by
      cases htimer : t.world.base.timerOf event with
      | none =>
          simp only [Ipcc.clientStep, Ipcc.onTimeout, htimer]
          exact ⟨_, rfl⟩
      | some ptr =>
          have hC := h.ran.sane.sound.correlates (h.requests.bounded hn)
          obtain ⟨-, -, -, -, -, w, hw, -⟩ := System.client_times_out h.ran.sane hC htimer []
          exact ⟨w, hw⟩
    obtain ⟨w, hstep⟩ := hstep
    exact ⟨w, hstep, hspec.of_ok hstep, hreports.of_ok hstep, hmute.of_ok hstep h.script⟩

/-- **An event of the loop.** -/
theorem Session.handle (h : Session delivery callback n w₀ t) (hdeaf : Deaf delivery) (hn : n ≤ 1)
    {e : Ipcc.ClientEvent}
    (he : (∃ results, e = .recv results []) ∨ ∃ event, e = .timeout event []) :
    Safe NoTrap (fun t' => Session delivery callback n w₀ t' ∧ t'.testEvent = t.testEvent)
      (t.handle delivery e) := by
  obtain ⟨w, hw, hstepped, hreported, hscript, calls, htrace, hmute⟩ := h.event hn he
  have hmakes : Makes (Requests callback 0) t.world w :=
    ⟨hscript, calls, htrace, hmute.requests callback⟩
  rw [Tool.handle, hw]
  exact h.after hdeaf hstepped hreported hmakes

theorem Requests.mono {trace : List Call} (h : Requests callback n trace) (hle : n ≤ m) :
    Requests callback m trace := ⟨Nat.le_trans h.1 hle, h.2⟩

theorem Session.mono (h : Session delivery callback n w₀ t) (hle : n ≤ m) :
    Session delivery callback m w₀ t :=
  ⟨h.ran, h.reported, h.script, h.sServer, h.latest, h.requests.mono hle⟩

/-- The handle that `s_server` holds. -/
theorem Session.handle_open (h : Session delivery callback n w₀ t) (hs : t.sServer = true) :
    ∃ s, t.world.server = some s := by
  cases hserver : t.world.server with
  | some s => exact ⟨s, rfl⟩
  | none =>
      have hcalled := h.reported.called hserver
      have hnone := h.sServer.mp hs
      omega

/-- **The request**, whether it can be sent or not. -/
theorem Session.sendRequest {tx : List Byte} (env : SendEnv)
    (h : Session ipcSendDelivery ipcSendRxCallbackPtr 0 w₀ t) :
    Safe NoTrapOrSignal (fun t' => Session ipcSendDelivery ipcSendRxCallbackPtr 1 w₀ t' ∧
      t'.testEvent = t.testEvent) (t.sendRequest tx env) := by
  unfold Tool.sendRequest
  cases hs : t.sServer with
  | false => exact ⟨h.mono (Nat.zero_le 1), rfl⟩
  | true =>
      obtain ⟨s, hserver⟩ := h.handle_open hs
      -- as a call from outside it returns
      have hsome : ¬ t.world.server.isNone = true := by
        rw [hserver]
        exact Bool.false_ne_true
      obtain ⟨v, hrun, -⟩ := Ipcc.runAction_evolves h.ran.sane
        (.sendRequest tx tx.length (some ipcSendRxCallbackPtr) 0 3000 env)
      have hstepped := (Ipcc.clientStep_spec h.ran.quiet h.ran.sane (.call (.sendRequest tx tx.length
        (some ipcSendRxCallbackPtr) 0 3000 env))).of_ok hrun
      have hreported := (Ipcc.runAction_reports h.reported (.sendRequest tx tx.length
        (some ipcSendRxCallbackPtr) 0 3000 env)).of_ok hrun
      simp only [Ipcc.runAction] at hrun
      rw [if_neg hsome, bind_eq_ok] at hrun
      obtain ⟨⟨reply, w⟩, hsend, hret⟩ := hrun
      obtain rfl : w = v := Except.ok.inj hret
      rw [if_neg (by decide)]
      simp only [hsend, ofFault, Except.mapError, bind, Except.bind]
      have hafter := h.after ipcSendDelivery_deaf hstepped hreported (sendRequest_requests hsend)
      by_cases hsignal : sendmsgFails (w.trace.drop t.world.trace.length) = true ∧
          env.sendErrno = epipe
      · rw [if_pos hsignal]
        exact fun hbad => hbad.2 rfl
      · rw [if_neg hsignal]
        exact hafter.weaken (fun _ hbad => hbad.1)

/-- Nothing of the library is left, and its client has been told. -/
structure Released (w : Ipcc.World) : Prop where
  server : w.server = none
  closes : closesOf 0 w.trace = 1
  releases : releasesOf 0 w.trace = 1
  events : w.base.events = []

theorem released_of_freed {w : Ipcc.World} (hfreed : Ipcc.Freed w) (hreported : Ipcc.Reported w)
    (hsane : Ipcc.Sane w) (hbound : Bounded w.trace) : Released w := by
  have hcalled := hreported.called hfreed.server
  have honce := hfreed.closes
  have hconns : w.endpoint.conns = [] := by
    show (w.server.map Ipcc.Server.conn).toList = []
    rw [hfreed.server]
    rfl
  refine ⟨hfreed.server, by omega, hfreed.releases, ?_⟩
  rw [List.eq_nil_iff_forall_not_mem]
  intro e he
  cases harg : e.arg with
  | server => exact hfreed.events e he harg
  | client ptr =>
      obtain ⟨c, hc, -⟩ := hsane.sound.lives.watched e he ptr harg
      rw [hconns] at hc
      cases hc
  | request ptr =>
      obtain ⟨c, hc, -⟩ := (hsane.sound.correlates hbound).timers e he ptr harg
      rw [hconns] at hc
      cases hc

/-- **The end of a program** releases the connection, or it has been released. -/
theorem Session.close (h : Session delivery callback n w₀ t) (hdeaf : Deaf delivery) (hn : n ≤ 1) :
    ∃ w, t.close = .ok w ∧ Released w ∧ messagesOf delivery w.trace =
      messagesOf delivery t.world.trace ∧ Requests callback n w.trace := by
  unfold Tool.close
  cases hs : t.sServer with
  | false =>
      have hclosed : closesOf 0 t.world.trace ≠ 0 := by
        rw [ne_eq, ← h.sServer, hs]
        exact Bool.false_ne_true
      rcases h.ran.quiet with hopen | hfreed
      · exact absurd hopen.closes hclosed
      · exact ⟨_, rfl, released_of_freed hfreed h.reported h.ran.sane (h.requests.bounded hn), rfl,
          h.requests⟩
  | true =>
      obtain ⟨s, hserver⟩ := h.handle_open hs
      rcases h.ran.quiet with hopen | hfreed
      swap
      · rw [hfreed.server] at hserver
        cases hserver
      obtain ⟨w, hclose, hfreed⟩ := Ipcc.afIpccClose_quiet hopen
      have hsteps := (Ipcc.afIpccClose_reports h.reported).of_ok hclose
      have hflags : ¬ s.flags &&& Ipcc.flagsInReceive ≠ 0 := by
        obtain ⟨s', hs', -, hzero, -⟩ := hopen.server
        obtain rfl := Option.some.inj (hserver.symm.trans hs')
        rw [hzero]
        decide
      have hend : Ipcc.afIpccClose t.world = .ok (t.world.closed statusOk s) := by
        simp only [Ipcc.afIpccClose, Ipcc.deref_eq hserver, bind, Except.bind]
        rw [if_neg hflags]
        exact Ipcc.closeAndFreeServer_eq hserver (h.ran.sane.fd s hserver) statusOk
      obtain rfl : w = t.world.closed statusOk s := Except.ok.inj (hclose.symm.trans hend)
      have htrace : (t.world.closed statusOk s).trace = t.world.trace ++ Ipcc.closeCalls statusOk s :=
        rfl
      have hrequests : Requests callback n (t.world.closed statusOk s).trace := by
        rw [htrace]
        exact h.requests.append ((closeCalls_mute statusOk s).requests callback)
      refine ⟨_, ?_, released_of_freed hfreed hsteps
        (Ipcc.closed_spec h.ran.sane hserver statusOk).1 (hrequests.bounded hn), ?_, hrequests⟩
      · rw [if_pos rfl, hclose]
        rfl
      · rw [htrace, messagesOf_append, hdeaf.messagesOf (Ipcc.closeCalls_closing statusOk s),
          List.append_nil]

end Session

end AfIpc.Tools
