/-
  AfIpc.Ipcc.Runs

  Runs of the client.  Between two events the connection is `Quiet`, and every
  event that comes to an end is steps of the endpoint.
-/

import AfIpc.Ipcc.Refines

namespace AfIpc.Ipcc

open AfIpc.Lib AfIpc.Ipc

-- ============================================================================
-- Timeouts
-- ============================================================================

section Timeout

variable {w : World} {s : Server}

/-- A timer that fires is a step. -/
theorem timeout_evolves (hw : Sane w) (hs : w.server = some s) {event ptr : Nat} {req : Request}
    {rc : ReqControl} {base : EventBase} {calls : List Call}
    (hout : afIpcOnTimeout ptr s.reqControl (timerFired event w.base) = .ok (req, rc, base))
    (hcalls : calls = [] ∨ calls = [.responseCallback 0 req statusTimeout 0 []])
    (hheard : calls = [] → req.responseCallback = none) :
    Sane (w.completed s rc base calls) ∧ Evolves w (w.completed s rc base calls) [] := by
  refine Evolves.of_step hw ?_ ?_ (completed_keeps hs rc base calls)
  · rw [completed_endpoint hs]
    exact .timeout (conn_mem hs) hout hcalls hheard
  · show takenOf (w.trace ++ calls) = _
    rw [takenOf_append]
    rcases hcalls with rfl | rfl <;> rfl

/-- **A timer** that fires runs one callback at most. -/
theorem onTimeout_evolves (hw : Sane w) {event : Nat} {w' : World}
    (hrun : onTimeout event w = .ok w') : Sane w' ∧ Evolves w w' [] := by
  unfold onTimeout at hrun
  split at hrun
  · obtain rfl := Except.ok.inj hrun
    exact ⟨hw, .refl w⟩
  · rename_i ptr _
    split at hrun
    · cases hrun
    · rename_i s hs
      rw [bind_eq_ok] at hrun
      obtain ⟨⟨req, rc, base⟩, hout, hrest⟩ := hrun
      dsimp only at hrest
      split at hrest
      · -- the callback of the request
        obtain ⟨hsane, hevolves⟩ := timeout_evolves hw hs hout (.inr rfl)
          (fun hnil => by cases hnil)
        obtain ⟨v, hv, hsane', hcalls, _⟩ := runCallback_evolves hsane
        obtain rfl : w' = v := Except.ok.inj (hrest.symm.trans hv)
        exact ⟨hsane', hevolves.trans hcalls⟩
      · rename_i hcb
        obtain ⟨hsane, hevolves⟩ := timeout_evolves hw hs hout (.inl rfl)
          (fun _ => hcb)
        have hsame : w.completed s rc base [] =
            (w.setServer { s with reqControl := rc }).setBase base := by
          rw [World.completed, List.append_nil]
          rfl
        rw [hsame] at hsane hevolves
        obtain rfl := Except.ok.inj hrest
        exact ⟨hsane, hevolves⟩

end Timeout

-- ============================================================================
-- Events
-- ============================================================================

/-- No callback of the event ends the connection that it is about. -/
def SparesConnection : ClientEvent → Prop
  | .recv results script => Spares (entriesFor results script)
  | .timeout _ _ => True
  | .call _ => True

/-- The frames that an event brings. -/
def framesOf (w : World) : ClientEvent → List Frame
  | .recv results _ =>
    if watches w.base then (chunksOf results).flatMap frames.items else []
  | _ => []

/-- What an event leaves. -/
structure Stepped (w : World) (e : ClientEvent) (w' : World) : Prop where
  quiet : Quiet w'
  sane : Sane w'
  evolves : ∃ fs, Evolves w w' (fs.map (Prod.mk 0)) ∧ (SparesConnection e → fs = framesOf w e)

section Events

variable {w : World}

theorem Sane.scripted (hw : Sane w) (script : List (List Action)) :
    Sane { w with script := script } := ⟨hw.sound, hw.fd⟩

/-- What evolves from a world with another script evolves from the world. -/
theorem Evolves.of_scripted {w' : World} {fs : List (Nat × Frame)} {script : List (List Action)}
    (h : Evolves { w with script := script } w' fs) : Evolves w w' fs :=
  ⟨h.steps, h.taken, h.keeps⟩

/-- A freed connection has no receive event. -/
theorem Freed.not_watches (h : Freed w) : watches w.base = false := by
  rw [watches, List.any_eq_false]
  intro e he hserver
  have hne := h.events e he
  simp [hne] at hserver

/-- **An event** goes wrong only where a callback ends the connection. -/
theorem clientStep_spec (hq : Quiet w) (hw : Sane w) (e : ClientEvent) :
    Safe (fun f => SparesConnection e ∧ f = .useAfterRelease) (Stepped w e) (clientStep w e) := by
  have hcalm : NoFailedSend w e → Safe TouchesFreed Quiet (clientStep w e) :=
    fun hcond => clientStep_quiet hq hcond
  cases e with
  | recv results script =>
      simp only [clientStep]
      by_cases hwatch : watches w.base = true
      · rw [if_pos hwatch]
        rcases hq with hopen | hfreed
        · have halive : OpenWith (fun f => f = 0) { w with script := script } :=
            ⟨hopen.server, hopen.closes, hopen.releases⟩
          have hrecv := onRecv_spec (S := Spares (entriesFor results script)) (hw.scripted script)
            halive results (fun hs => hs)
          refine (hrecv.weaken (fun f hf => hf.1)).mono ?_
          rintro w' ⟨hquiet, hsane, _, fs, hevolves, hfs⟩
          refine ⟨hquiet, hsane, fs, hevolves.of_scripted, fun hs => ?_⟩
          rw [hfs hs, framesOf, if_pos hwatch]
        · rw [hfreed.not_watches] at hwatch
          cases hwatch
      · rw [if_neg hwatch]
        refine ⟨hq, hw, [], .refl w, fun _ => ?_⟩
        rw [framesOf, if_neg hwatch]
  | timeout event script =>
      have hquiet := hcalm trivial
      cases hrun : clientStep w (.timeout event script) with
      | error f =>
          rw [hrun] at hquiet
          exact fun hf => hquiet hf.2
      | ok w' =>
          rw [hrun] at hquiet
          obtain ⟨hsane, hevolves⟩ := onTimeout_evolves (hw.scripted script) hrun
          exact ⟨hquiet, hsane, [], hevolves.of_scripted, fun _ => rfl⟩
  | call action =>
      have hquiet := hcalm trivial
      obtain ⟨w', hrun, hsane, hevolves, _⟩ := runAction_evolves hw action
      have hstep : clientStep w (.call action) = .ok w' := hrun
      rw [hstep] at hquiet ⊢
      exact ⟨hquiet, hsane, [], hevolves, fun _ => rfl⟩

/-- What a run leaves. -/
structure Ran (w w' : World) : Prop where
  quiet : Quiet w'
  sane : Sane w'
  steps : w.endpoint.Steps w'.endpoint
  keeps : ∀ s', w'.server = some s' → ∃ s, w.server = some s ∧ s'.handle = s.handle

/-- **A run** is steps of the endpoint, between states that are quiet. -/
theorem clientRun_spec (hq : Quiet w) (hw : Sane w) (events : List ClientEvent) :
    Safe (fun _ => False) (Ran w) (run clientStep w events) := by
  have hstart : Ran w w := ⟨hq, hw, .refl, fun s hs => ⟨s, hs, rfl⟩⟩
  refine Safe.run (fun v e _ hv => ?_) hstart
  have hstep := clientStep_spec hv.quiet hv.sane e
  refine (hstep.weaken (fun _ hf => False.elim hf)).mono ?_
  rintro w' ⟨hquiet, hsane, fs, hevolves, -⟩
  refine ⟨hquiet, hsane, hv.steps.trans hevolves.steps, fun s' hs' => ?_⟩
  obtain ⟨t, ht, heq⟩ := hevolves.keeps s' hs'
  obtain ⟨s, hs, heq'⟩ := hv.keeps t ht
  exact ⟨s, hs, heq.trans heq'⟩

end Events

-- ============================================================================
-- Opening
-- ============================================================================

section Open

variable {env : OpenEnv} {base : EventBase} {name : CString} {receiveCallback : Option Callback}
  {receiveContext : Context} {closeCallback : Option Callback} {w₀ : World}

theorem started_of_open (hbase : base.events = []) (hopen : afIpccOpenServer env base name
    receiveCallback receiveContext closeCallback = .ok (some w₀)) : Started w₀.endpoint := by
  obtain ⟨-, rfl⟩ := opened_eq hopen
  have hevents : (eventAdd base.next (eventNew .server base).2).events =
      [⟨base.next, .server, true⟩] := by
    simp [eventAdd, eventNew, hbase]
  refine ⟨rfl, fun c hc => ?_, List.nodup_singleton _, List.nodup_singleton _, rfl, fun e he => ?_⟩
  · obtain rfl := List.mem_singleton.mp hc
    exact ⟨Nat.succ_pos _, rfl, rfl, rfl⟩
  · change e ∈ (eventAdd base.next (eventNew .server base).2).events at he
    rw [hevents] at he
    rw [List.mem_singleton.mp he]
    exact ⟨Nat.lt_succ_self _, rfl⟩

/-- A client that is opened on an event base without events of the library. -/
theorem sane_of_open (hbase : base.events = []) (hopen : afIpccOpenServer env base name
    receiveCallback receiveContext closeCallback = .ok (some w₀)) : Quiet w₀ ∧ Sane w₀ := by
  have hnone : base.All (fun _ arg => arg ≠ .server) := by
    intro e he
    rw [hbase] at he
    cases he
  refine ⟨quiet_of_open hnone hopen, (started_of_open hbase hopen).sound, fun s hs => ?_⟩
  obtain ⟨hfd, rfl⟩ := opened_eq hopen
  obtain rfl := Option.some.inj hs
  exact hfd

end Open

/-- A client with both callbacks, just opened. -/
def openClient : World :=
  { server := some ⟨3, 0, some 1, some 2, 0, some 0, ⟨0, true, []⟩⟩
    base := ⟨[⟨0, .server, true⟩], 1⟩, script := [], trace := [] }

theorem openClient_opens : afIpccOpenServer ⟨true, true, 3, true, true, 0, 0⟩ ⟨[], 0⟩ .empty
    (some 1) 0 (some 2) = .ok (some openClient) := rfl

end AfIpc.Ipcc
