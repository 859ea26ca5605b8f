/-
  AfIpc.System.Timers

  The timers of the parties.  In every state they get to, each request that waits has a
  timer of its own and no timer outlives its request, so that one that fires always
  finds the request whose callback it is to call.
-/

import AfIpc.System.Outcomes

namespace AfIpc.System

open AfIpc.Lib AfIpc.Ipc

-- ============================================================================
-- A timer that fires
-- ============================================================================

/-- The first thing that is heard is that the request has timed out. -/
def TimedOut (conn : Nat) (r : Request) (before after : List Call) : Prop :=
  ∃ calls, after = before ++
    ((if r.responseCallback.isSome then [.responseCallback conn r statusTimeout 0 []] else []) ++ calls)

/-- The server handles a timer. -/
theorem server_times_out {w : Ipcs.World} (hi : Ipcs.Idle w) (hC : Correlates w.endpoint)
    {event ptr : Nat} (htimer : w.base.timerOf event = some ptr) (script : List (List Ipcs.Action)) :
    ∃ c ∈ w.server.clients, ∃ r ∈ c.reqControl.pendingRequests, r.ptr = ptr ∧
      ∃ w', Ipcs.serverStep w (.timeout event script) = .ok w' ∧
        TimedOut c.ptr r w.trace w'.trace := by
  obtain ⟨e, he, rfl, harg, -⟩ := timerOf_eq_some htimer
  -- its request waits at some client, and the owner is found
  obtain ⟨d, hd, r, hr, hptr, -⟩ := hC.timers e he ptr harg
  obtain ⟨c₀, hc₀, rfl⟩ := List.mem_map.mp hd
  obtain ⟨c, howner⟩ : ∃ c, w.ownerOf ptr = some c := by
    rw [← Option.isSome_iff_exists, Ipcs.World.ownerOf, List.find?_isSome]
    refine ⟨c₀, hc₀, ?_⟩
    rw [List.any_eq_true]
    exact ⟨r, hr, decide_eq_true hptr⟩
  obtain ⟨hc, r', hr', hptr'⟩ := Ipcs.ownerOf_mem howner
  obtain ⟨req, rc, base, hout⟩ := afIpcOnTimeout_finds (timerFired e.id w.base) hr' hptr'
  obtain ⟨hmem, hreq⟩ := afIpcOnTimeout_some hout
  refine ⟨c, hc, req, hmem, hreq, ?_⟩
  have hscripted : Ipcs.Idle { w with script := script } := hi.scripted script
  simp only [Ipcs.serverStep, Ipcs.onTimeout, htimer]
  have howner' : Ipcs.World.ownerOf { w with script := script } ptr = some c := howner
  simp only [howner', hout, bind, Except.bind]
  cases hcb : req.responseCallback with
  | none =>
      refine ⟨_, rfl, [], ?_⟩
      rw [hcb, Option.isSome_none, if_neg Bool.false_ne_true]
      exact (List.append_nil _).symm
  | some cb =>
      obtain ⟨hidle, -⟩ := Ipcs.timeout_spec hscripted hc hout (.inr rfl)
        (fun hnil => by cases hnil)
      obtain ⟨w', hw', -, hevolves, -⟩ := Ipcs.runCallback_spec hidle
      obtain ⟨calls, hcalls⟩ := hevolves.steps.trace
      refine ⟨w', hw', calls, ?_⟩
      rw [hcb, Option.isSome_some, if_pos rfl, ← List.append_assoc]
      exact hcalls

/-- The client handles a timer. -/
theorem client_times_out {w : Ipcc.World} (hw : Ipcc.Sane w) (hC : Correlates w.endpoint)
    {event ptr : Nat} (htimer : w.base.timerOf event = some ptr) (script : List (List Ipcc.Action)) :
    ∃ s, w.server = some s ∧ ∃ r ∈ s.reqControl.pendingRequests, r.ptr = ptr ∧
      ∃ w', Ipcc.clientStep w (.timeout event script) = .ok w' ∧ TimedOut 0 r w.trace w'.trace := by
  obtain ⟨e, he, rfl, harg, -⟩ := timerOf_eq_some htimer
  obtain ⟨d, hd, r, hr, hptr, -⟩ := hC.timers e he ptr harg
  cases hs : w.server with
  | none =>
      have hnone : w.endpoint.conns = [] := by
        show (w.server.map Ipcc.Server.conn).toList = []
        rw [hs]
        rfl
      rw [hnone] at hd
      cases hd
  | some s =>
      rw [Ipcc.endpoint_conns hs] at hd
      obtain rfl := List.mem_singleton.mp hd
      obtain ⟨req, rc, base, hout⟩ := afIpcOnTimeout_finds (timerFired e.id w.base) hr hptr
      obtain ⟨hmem, hreq⟩ := afIpcOnTimeout_some hout
      refine ⟨s, rfl, req, hmem, hreq, ?_⟩
      have hscripted : Ipcc.Sane { w with script := script } := hw.scripted script
      have hout' : afIpcOnTimeout ptr s.reqControl (timerFired e.id w.base) = .ok (req, rc, base) :=
        hout
      simp only [Ipcc.clientStep, Ipcc.onTimeout, htimer, hs, hout', bind, Except.bind]
      cases hcb : req.responseCallback with
      | none =>
          refine ⟨_, rfl, [], ?_⟩
          rw [hcb, Option.isSome_none, if_neg Bool.false_ne_true]
          exact (List.append_nil _).symm
      | some cb =>
          obtain ⟨hsane, -⟩ := Ipcc.timeout_evolves hscripted hs hout (.inr rfl)
            (fun hnil => by cases hnil)
          obtain ⟨w', hw', -, hevolves, -⟩ := Ipcc.runCallback_evolves hsane
          obtain ⟨calls, hcalls⟩ := hevolves.steps.trace
          refine ⟨w', hw', calls, ?_⟩
          rw [hcb, Option.isSome_some, if_pos rfl, ← List.append_assoc]
          exact hcalls

-- ============================================================================
-- The system
-- ============================================================================

/-- **No request waits without its timer, and no timer outlives its request.**  In any
    state that the parties get to within the bounds, at the server and at each client:
    the requests that wait on the open connections and the timers in the event base
    are one to one; and a timer that fires is handled, whatever the callback does,
    and the first thing that is heard is the callback of its request with the timeout
    status. -/
theorem timers_of_run {s : Sys} (hreach : s.Reachable) (hserver : Bounded s.server.trace)
    (hclient : ∀ p, Bounded (s.client p).trace) :
    (TimersOwned s.server.base (s.server.server.clients.map Ipcs.Client.reqControl) ∧
      ∀ event ptr script, s.server.base.timerOf event = some ptr →
        ∃ c ∈ s.server.server.clients, ∃ r ∈ c.reqControl.pendingRequests, r.ptr = ptr ∧
          ∃ w, Ipcs.serverStep s.server (.timeout event script) = .ok w ∧
            TimedOut c.ptr r s.server.trace w.trace) ∧
      ∀ p, TimersOwned (s.client p).base
          ((s.client p).server.toList.map Ipcc.Server.reqControl) ∧
        ∀ event ptr script, (s.client p).base.timerOf event = some ptr →
          ∃ t, (s.client p).server = some t ∧ ∃ r ∈ t.reqControl.pendingRequests, r.ptr = ptr ∧
            ∃ w, Ipcc.clientStep (s.client p) (.timeout event script) = .ok w ∧
              TimedOut 0 r (s.client p).trace w.trace := by
  have hsettled := hreach.settled
  refine ⟨?_, fun p => ?_⟩
  · obtain ⟨h₀, hstarted, hplaced, hsteps⟩ := hsettled.ran.server
    have hsound := hsteps.sound hstarted.sound
    have hC := hsound.correlates hserver
    have howned := timersOwned hsound.lives (hsteps.apart hstarted.lives hstarted.apart) hC
      (hsteps.timed hstarted.sound hstarted.apart (hstarted.timed hplaced) hserver)
    have htables : s.server.endpoint.conns.map Conn.table =
        s.server.server.clients.map Ipcs.Client.reqControl := List.map_map
    rw [htables] at howned
    exact ⟨howned, fun event ptr script htimer =>
      server_times_out hsettled.idle hC htimer script⟩
  · obtain ⟨h₀, hstarted, hplaced, hsteps⟩ := hsettled.ran.client p
    have hsound := hsteps.sound hstarted.sound
    have hC := hsound.correlates (hclient p)
    have howned := timersOwned hsound.lives (hsteps.apart hstarted.lives hstarted.apart) hC
      (hsteps.timed hstarted.sound hstarted.apart (hstarted.timed hplaced) (hclient p))
    have htables : (s.client p).endpoint.conns.map Conn.table =
        (s.client p).server.toList.map Ipcc.Server.reqControl := by
      show (((s.client p).server.map Ipcc.Server.conn).toList).map Conn.table = _
      cases (s.client p).server <;> rfl
    rw [htables] at howned
    exact ⟨howned, fun event ptr script htimer =>
      client_times_out (hsettled.quiet p).2 hC htimer script⟩

/-- A client of `openSys` has sent a request. -/
def waiting : Sys where
  server := openSys.server
  client := Function.update (fun _ => Ipcc.openClient) 1
    { server := some ⟨3, 0, some 1, some 2, 0, some 0, ⟨1, true, [⟨1, 1, some 2, 1000, some 9, 0⟩]⟩⟩
      base := ⟨[⟨2, .request 1, true⟩, ⟨0, .server, true⟩], 3⟩, script := []
      trace := [requestSent] }

theorem waiting_reachable : waiting.Reachable :=
  ⟨openSys, openSys_opened,
    .single (.client 1 (e := .call (.sendRequest [7] 1 (some 9) 0 1000 .good)) rfl)⟩

/-- The timer of the request fires. -/
theorem timers_of_run_waiting :
    ∃ w, Ipcc.clientStep (waiting.client 1) (.timeout 2 []) = .ok w ∧
      TimedOut 0 ⟨1, 1, some 2, 1000, some 9, 0⟩ [requestSent] w.trace := by
  have hserver : Bounded waiting.server.trace := bounded_of_length (by decide)
  have hclient : ∀ p, Bounded (waiting.client p).trace := by
    intro p
    apply bounded_of_length
    by_cases hp : p = 1
    · subst hp
      decide
    · have hother : waiting.client p = Ipcc.openClient := by
        simp only [waiting, Function.update_apply, if_neg hp]
      rw [hother]
      decide
  have hfires := ((timers_of_run waiting_reachable hserver hclient).2 1).2 2 1 [] rfl
  obtain ⟨t, ht, r, hr, -, hw⟩ := hfires
  obtain rfl := Option.some.inj ht
  obtain rfl := List.mem_singleton.mp hr
  exact hw

end AfIpc.System
