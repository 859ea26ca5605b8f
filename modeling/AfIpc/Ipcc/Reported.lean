/-
  AfIpc.Ipcc.Reported

  An application that gives `af_ipcc_open_server` a close callback learns of the end
  of its connection, whatever ends it: the peer, a failed send, or a call of its own.
  So a handle that it forgets in the callback is one it never uses after the free,
  and never loses before (`handle_gone_iff`).

  `Reported` is kept by every function that can touch the connection, inside the
  receive loop and outside; no condition on what the callbacks do is needed for it.
-/

import AfIpc.Ipcc.Kept

namespace AfIpc.Ipcc

open AfIpc.Lib AfIpc.Ipc

-- ============================================================================
-- The invariant
-- ============================================================================

/-- There is a close callback as long as there is a connection, and it has been called
    if there is none. -/
structure Reported (w : World) : Prop where
  registered : ∀ s, w.server = some s → s.closeCallback.isSome = true
  called : w.server = none → 0 < closesOf 0 w.trace

section Keeps

variable {w : World} {s : Server}

theorem Reported.note (h : Reported w) (c : Call) : Reported (w.note c) where
  registered := h.registered
  called := by
    intro hnone
    show 0 < closesOf 0 (w.trace ++ [c])
    have hcalled := h.called hnone
    rw [closesOf_concat]
    omega

theorem Reported.noteSend (h : Reported w) (fd : Int) (sentBy : SentBy) (packet : Option Packet)
    (ok : Bool) : Reported (w.noteSend fd sentBy packet ok) := by
  cases packet with
  | none => exact h
  | some packet => exact h.note _

theorem Reported.setBase (h : Reported w) (base : EventBase) : Reported (w.setBase base) :=
  ⟨h.registered, h.called⟩

theorem Reported.scripted (h : Reported w) (script : List (List Action)) :
    Reported { w with script := script } := ⟨h.registered, h.called⟩

/-- Writing back what was read through the handle. -/
theorem Reported.setServer (h : Reported w) (hs : w.server = some s) {s' : Server}
    (hcb : s'.closeCallback = s.closeCallback) : Reported (w.setServer s') where
  registered := by
    intro t ht
    obtain rfl := Option.some.inj ht
    rw [hcb]
    exact h.registered s hs
  called := by
    intro hnone
    cases hnone

end Keeps

-- ============================================================================
-- Calls
-- ============================================================================

section Calls

variable {w : World} {s : Server}

/-- **The end of the connection** is reported. -/
theorem closeAndFreeServer_reports (h : Reported w) (status : Int) :
    Safe Foreign Reported (closeAndFreeServer status w) := by
  unfold closeAndFreeServer World.deref
  cases hs : w.server with
  | none => exact fun h => h rfl
  | some s =>
      have hcb := h.registered s hs
      have hcalled : ∀ v : World, Reported (World.note { v with server := none }
          (.closeCallback 0 status 0 s.receiveContext)) := by
        intro v
        refine ⟨fun t ht => (by cases ht), fun _ => ?_⟩
        show 0 < closesOf 0 (v.trace ++ [Call.closeCallback 0 status 0 s.receiveContext])
        rw [closesOf_concat, Call.isClose, if_pos (decide_eq_true rfl)]
        omega
      simp only [bind, Except.bind]
      rw [if_pos hcb]
      exact hcalled _

theorem keptByCalls_reported : KeptByCalls (fun w w' => Reported w → Reported w') where
  refl := fun _ h => h
  trans := fun huv hvw h => hvw (huv h)
  script := fun _ script h => h.scripted script
  write := by
    intro w s s' hs hhandle h
    refine h.setServer hs ?_
    simp only [Server.handle, Prod.mk.injEq] at hhandle
    exact hhandle.2.2.1
  setBase := fun _ base h => h.setBase base
  note := fun _ fd sentBy packet ok h => h.noteSend fd sentBy packet ok
  close := fun _ _ status hclose h => (closeAndFreeServer_reports h status).of_ok hclose

theorem afIpccClose_reports (h : Reported w) : Safe Foreign Reported (afIpccClose w) :=
  (keptByCalls_reported.afIpccClose w).mono (fun _ hv => hv h)

theorem runAction_reports (h : Reported w) (a : Action) : Safe Foreign Reported (runAction w a) :=
  (keptByCalls_reported.action w a).mono (fun _ hv => hv h)

end Calls

-- ============================================================================
-- Events
-- ============================================================================

section Events

variable {w : World}

theorem keptByEvents_reported : KeptByEvents (fun w w' => Reported w → Reported w') where
  refl := keptByCalls_reported.refl
  trans := keptByCalls_reported.trans
  observe := fun _ c _ h => h.note c
  write := keptByCalls_reported.write
  setBase := keptByCalls_reported.setBase
  close := keptByCalls_reported.close
  callback := fun w _ hcall => (keptByCalls_reported.callback w).of_ok hcall

/-- **An event** keeps it. -/
theorem clientStep_reports (h : Reported w) (e : ClientEvent) :
    Safe (fun f => Foreign f ∧ f ≠ .staleTimer) Reported (clientStep w e) := by
  cases e with
  | recv results script =>
      have hscripted : Reported w → Reported { w with script := script } :=
        fun hw => hw.scripted script
      have hrecv := keptByEvents_reported.clientStep_recv hscripted results
      exact (hrecv.weaken (fun _ hf => hf.1)).mono (fun v hv => hv h)
  | timeout event script =>
      have hscripted : Reported w → Reported { w with script := script } :=
        fun hw => hw.scripted script
      exact (keptByEvents_reported.clientStep_timeout hscripted event).mono (fun v hv => hv h)
  | call action => exact (runAction_reports h action).weaken (fun _ hf => hf.1)

theorem reported_of_open {env : OpenEnv} {base : EventBase} {name : CString}
    {receiveCallback : Option Callback} {receiveContext : Context} {callback : Callback}
    {w₀ : World} (hopen : afIpccOpenServer env base name receiveCallback receiveContext
      (some callback) = .ok (some w₀)) :
    Reported w₀ := by
  obtain ⟨-, rfl⟩ := opened_eq hopen
  refine ⟨fun s hs => ?_, fun hnone => by cases hnone⟩
  obtain rfl := Option.some.inj hs
  rfl

/-- **The close callback tells of the end of the connection**, exactly once, and of
    nothing else.  In every run without a fault from a successful open with a close
    callback, whatever ends the connection and whatever the callbacks do, as long as
    nothing touches the connection after it was freed: the handle is gone if and only
    if the close callback has been called, and the record has been freed as often as
    that, which is once at most. -/
theorem handle_gone_iff {env : OpenEnv} {base : EventBase} {name : CString}
    {receiveCallback : Option Callback} {receiveContext : Context} {callback : Callback}
    {w₀ w : World} (hbase : base.events = [])
    (hopen : afIpccOpenServer env base name receiveCallback receiveContext (some callback) =
      .ok (some w₀))
    (events : List ClientEvent) (hrun : run clientStep w₀ events = .ok w) :
    (w.server = none ↔ closesOf 0 w.trace = 1) ∧ closesOf 0 w.trace ≤ 1 ∧
      releasesOf 0 w.trace = closesOf 0 w.trace := by
  obtain ⟨hquiet, hsane⟩ := sane_of_open hbase hopen
  have hran := (clientRun_spec hquiet hsane events).of_ok hrun
  have hreported : Reported w :=
    (Safe.run (fun v e _ hv => clientStep_reports hv e) (reported_of_open hopen)).of_ok hrun
  rcases hran.quiet with hlive | hfreed
  · obtain ⟨s, hs, -⟩ := hlive.server
    rw [hlive.closes, hlive.releases, hs]
    exact ⟨iff_of_false (fun h => by cases h) (by decide), by decide, rfl⟩
  · have hcalled := hreported.called hfreed.server
    have hcloses := hfreed.closes
    have hreleases := hfreed.releases
    exact ⟨iff_of_true hfreed.server (by omega), hcloses, by omega⟩

/-- A client whose peer hangs up. -/
theorem handle_gone_iff_eof :
    ∃ w, run clientStep openClient [.recv [.eof] []] = .ok w ∧
      (w.server = none ↔ closesOf 0 w.trace = 1) ∧ closesOf 0 w.trace ≤ 1 ∧
      releasesOf 0 w.trace = closesOf 0 w.trace :=
  ⟨_, rfl, handle_gone_iff rfl openClient_opens [.recv [.eof] []] rfl⟩

end Events

end AfIpc.Ipcc
