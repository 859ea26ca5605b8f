/-
  AfIpc.System.Outcomes

  What the runs of a system keep on each of its connections, without any assumption
  on the channels, on how often the sequence ids wrap, or on what the peers send.
-/

import AfIpc.Ipc.Outcomes
import AfIpc.Ipc.Timed
import AfIpc.System.Exchange

namespace AfIpc.System

open AfIpc.Lib AfIpc.Ipc

/-- Each party has got to where it is by steps of its endpoint. -/
structure Sys.Ran (s : Sys) : Prop where
  server : ∃ h₀, Started h₀ ∧ Placed h₀ ∧ h₀.Steps s.server.endpoint
  client : ∀ p, ∃ h₀, Started h₀ ∧ Placed h₀ ∧ h₀.Steps (s.client p).endpoint

section Ran

variable {s s' : Sys}

/-- The states between two events. -/
structure Sys.Settled (s : Sys) : Prop where
  ran : s.Ran
  idle : Ipcs.Idle s.server
  quiet : ∀ p, Ipcc.Quiet (s.client p) ∧ Ipcc.Sane (s.client p)

theorem Sys.Opened.settled (h : s.Opened) : s.Settled := by
  obtain ⟨env, base, acb, actx, rcb, ccb, hbare, hopen⟩ := h.server
  refine ⟨⟨⟨_, Ipcs.started_of_open hbare hopen, ?_, .refl⟩, fun p => ?_⟩,
    Ipcs.idle_of_open hbare hopen, fun p => ?_⟩
  · -- the server has no connection yet
    rw [Ipcs.opened_eq hopen]
    exact fun c hc => absurd hc List.not_mem_nil
  · obtain ⟨env, base, name, rcb, rctx, ccb, hbare, hopen⟩ := h.client p
    refine ⟨_, Ipcc.started_of_open hbare hopen, ?_, .refl⟩
    rw [(Ipcc.opened_eq hopen).2]
    intro c hc id hid
    obtain rfl := List.mem_singleton.mp hc
    obtain rfl : base.next = id := Option.some.inj hid
    exact Nat.lt_succ_self _
  · obtain ⟨env, base, name, rcb, rctx, ccb, hbare, hopen⟩ := h.client p
    exact Ipcc.sane_of_open hbare hopen

/-- One event of one party. -/
theorem Sys.Step.settled (hstep : s.Step s') (h : s.Settled) : s'.Settled := by
  cases hstep with
  | server hstep =>
      obtain ⟨hidle, hevolves⟩ := (Ipcs.serverStep_spec h.idle _).of_ok hstep
      obtain ⟨h₀, hstarted, hplaced, hsteps⟩ := h.ran.server
      exact ⟨⟨⟨h₀, hstarted, hplaced, hsteps.trans hevolves.steps⟩, h.ran.client⟩, hidle, h.quiet⟩
  | client p hstep =>
      obtain ⟨hquiet, hsane⟩ := h.quiet p
      have hstepped := (Ipcc.clientStep_spec hquiet hsane _).of_ok hstep
      obtain ⟨fs, hevolves, -⟩ := hstepped.evolves
      obtain ⟨h₀, hstarted, hplaced, hsteps⟩ := h.ran.client p
      refine ⟨⟨h.ran.server, fun q => ?_⟩, h.idle, fun q => ?_⟩
      · by_cases hqp : q = p
        · subst hqp
          dsimp only
          rw [Function.update_self]
          exact ⟨h₀, hstarted, hplaced, hsteps.trans hevolves.steps⟩
        · dsimp only
          rw [Function.update_of_ne hqp]
          exact h.ran.client q
      · by_cases hqp : q = p
        · subst hqp
          dsimp only
          rw [Function.update_self]
          exact ⟨hstepped.quiet, hstepped.sane⟩
        · dsimp only
          rw [Function.update_of_ne hqp]
          exact h.quiet q

theorem Sys.Reachable.settled (h : s.Reachable) : s.Settled := by
  obtain ⟨s₀, hopened, hsteps⟩ := h
  induction hsteps with
  | refl => exact hopened.settled
  | tail _ hstep ih => exact hstep.settled ih

end Ran

-- ============================================================================
-- Requests
-- ============================================================================

/-- On the connection `conn`, with the pending requests of its table. -/
def Balanced (conn : Nat) (pending : List Request) (trace : List Call) : Prop :=
  requestsOn conn trace = pending.length + callbacksOn conn trace

/-- **No request is lost, and none is answered twice over.**  A request is one with a
    timeout: without one it goes out as an unsolicited message, and its callback is not
    kept.  In any state that the parties get to, for applications that give each of
    their requests a callback: on every connection that is open, at either end, there
    have been as many requests as wait and as have had their callback; and on a
    connection that has been closed there have been no more callbacks than requests. -/
theorem requests_balanced {s : Sys} (hreach : s.Reachable) (hserver : Attentive s.server.trace)
    (hclient : ∀ p, Attentive (s.client p).trace) :
    (∀ c ∈ s.server.server.clients, Balanced c.ptr c.reqControl.pendingRequests s.server.trace) ∧
      (∀ p t, (s.client p).server = some t →
        Balanced 0 t.reqControl.pendingRequests (s.client p).trace) ∧
      ∀ p, callbacksOn p s.server.trace ≤ requestsOn p s.server.trace ∧
        callbacksOn 0 (s.client p).trace ≤ requestsOn 0 (s.client p).trace := by
  have hran := hreach.settled.ran
  obtain ⟨h₀, hstarted, -, hsteps⟩ := hran.server
  have hbooks := hsteps.conserves hstarted hserver
  have hbooks' : ∀ p, Conserves (s.client p).endpoint := by
    intro p
    obtain ⟨h₁, hstarted', -, hsteps'⟩ := hran.client p
    exact hsteps'.conserves hstarted' (hclient p)
  refine ⟨fun c hc => hbooks.live c.conn (Ipcs.conn_mem hc), fun p t ht => ?_, fun p => ?_⟩
  · exact (hbooks' p).live t.conn (Ipcc.conn_mem ht)
  · exact ⟨hbooks.gone p, (hbooks' p).gone 0⟩

/-- The request of `answered` has had its callback, and none waits. -/
theorem requests_balanced_answered :
    (∀ c ∈ answered.server.server.clients,
        Balanced c.ptr c.reqControl.pendingRequests answered.server.trace) ∧
      (∀ p t, (answered.client p).server = some t →
        Balanced 0 t.reqControl.pendingRequests (answered.client p).trace) ∧
      ∀ p, callbacksOn p answered.server.trace ≤ requestsOn p answered.server.trace ∧
        callbacksOn 0 (answered.client p).trace ≤ requestsOn 0 (answered.client p).trace := by
  refine requests_balanced answered_reachable ?_ (fun p => ?_)
  · intro conn fd callback context packet hmem _
    simp [answered, serverTrace] at hmem
  · intro conn fd callback context packet hmem _
    rw [answered_client] at hmem
    split_ifs at hmem
    · have heq : Call.sendmsg conn fd (.request callback context) packet true = requestSent := by
        simpa [clientTrace] using hmem
      cases heq
      exact fun hnone => by cases hnone
    · cases hmem

-- ============================================================================
-- Closing
-- ============================================================================

/-- Once the connection has been reported closed or its record given back, nothing is
    sent or taken on it and no callback is called for it. -/
def Ends (conn : Nat) (trace : List Call) : Prop :=
  ∀ t₁ c t₂, trace = t₁ ++ c :: t₂ → c.isClose conn = true ∨ c.isRelease conn = true →
    ∀ d ∈ t₂, d.uses conn = false

theorem ends_of_openWhenUsed {trace : List Call} (h : Justified OpenWhenUsed trace) (conn : Nat) :
    Ends conn trace := by
  intro t₁ c t₂ ht hend d hd
  by_contra huses
  obtain ⟨u, v, rfl⟩ := List.append_of_mem hd
  have hopen : OpenWhenUsed (t₁ ++ c :: u) d := by
    apply h (t₁ ++ c :: u) d v
    rw [ht, List.append_assoc, List.cons_append]
  obtain ⟨hcloses, hreleases⟩ := hopen conn (by simpa using huses)
  rcases hend with hclose | hrelease
  · exact List.countP_eq_zero.mp hcloses c (by simp) hclose
  · exact List.countP_eq_zero.mp hreleases c (by simp) hrelease

/-- **The close callback is the last that is heard of a connection.**  In any state
    that the parties get to, and on every connection, at either end: behind its close
    callback, and behind the release of its record, no message is sent or taken on it
    and neither the receive callback nor a response callback is called for it.  The
    parties get to no state by a fault: a receive event in which a callback ends its
    own connection goes on with the frames behind it in the chunk until it touches the
    freed record, and is left out. -/
theorem closed_for_good {s : Sys} (hreach : s.Reachable) (p : Nat) :
    Ends p s.server.trace ∧ Ends 0 (s.client p).trace := by
  have hran := hreach.settled.ran
  obtain ⟨h₀, hstarted, -, hsteps⟩ := hran.server
  obtain ⟨h₁, hstarted', -, hsteps'⟩ := hran.client p
  exact ⟨ends_of_openWhenUsed (hsteps.openWhenUsed hstarted) p,
    ends_of_openWhenUsed (hsteps'.openWhenUsed hstarted') 0⟩

/-- The client of `openSys` closes the connection, with a request still pending. -/
def hungUp : Sys where
  server := openSys.server
  client := Function.update (Function.update (fun _ => Ipcc.openClient) 1
    { server := some ⟨3, 0, some 1, some 2, 0, some 0, ⟨1, true, [⟨1, 1, some 2, 1000, some 9, 0⟩]⟩⟩
      base := ⟨[⟨2, .request 1, true⟩, ⟨0, .server, true⟩], 3⟩, script := []
      trace := [requestSent] }) 1
    { server := none, base := ⟨[], 3⟩, script := []
      trace := [requestSent, .shutdown 3 .rdwr, .closeFd 3, .release 0,
        .closeCallback 0 statusOk 0 0] }

theorem hungUp_reachable : hungUp.Reachable := by
  refine ⟨openSys, openSys_opened, ?_⟩
  apply Relation.ReflTransGen.tail
  apply Relation.ReflTransGen.tail
  · exact .refl
  · exact .client 1 (e := .call (.sendRequest [7] 1 (some 9) 0 1000 .good)) rfl
  · exact .client 1 (e := .call .close) rfl

theorem closed_for_good_hungUp :
    Ends 1 hungUp.server.trace ∧ Ends 0 (hungUp.client 1).trace :=
  closed_for_good hungUp_reachable 1

end AfIpc.System
