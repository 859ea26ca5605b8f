/-
  AfIpc.Ipcc.InOrder

  A client that has given a receive callback is handed each message that is taken from the
  connection, once and in order, whatever its callbacks do.
-/

import AfIpc.Ipc.InOrder
import AfIpc.Ipcc.Kept

namespace AfIpc.Ipcc

open AfIpc.Lib AfIpc.Ipc

/-- The connection, while there is one, has a receive callback, and what has been taken has
    been handed over. -/
structure Attends (w : World) : Prop where
  listens : ∀ s, w.server = some s → s.receiveCallback.isSome = true
  heeded : Heeded w.trace

/-- Nothing is taken or handed over, and the connection, if it is still there, is the
    one that it was. -/
structure Unnoticed (w w' : World) : Prop where
  keeps : ∀ s', w'.server = some s' → ∃ s, w.server = some s ∧ s'.handle = s.handle
  silent : Silent w.trace w'.trace

section Unnoticed

variable {w w' : World}

theorem Attends.unnoticed (h : Attends w) (hw : Unnoticed w w') : Attends w' := by
  refine ⟨fun s' hs' => ?_, h.heeded.silent hw.silent⟩
  obtain ⟨s, hs, hhandle⟩ := hw.keeps s' hs'
  simp only [Server.handle, Prod.mk.injEq] at hhandle
  rw [hhandle.2.1]
  exact h.listens s hs

theorem Unnoticed.trans {w'' : World} (h : Unnoticed w w') (h' : Unnoticed w' w'') : Unnoticed w w'' := by
  refine ⟨fun s'' hs'' => ?_, h.silent.trans h'.silent⟩
  obtain ⟨s', hs', hsecond⟩ := h'.keeps s'' hs''
  obtain ⟨s, hs, hfirst⟩ := h.keeps s' hs'
  exact ⟨s, hs, hsecond.trans hfirst⟩

theorem unnoticed_note {c : Call} (hc : c.incoming = false) : Unnoticed w (w.note c) :=
  ⟨fun s hs => ⟨s, hs, rfl⟩, silent_concat hc⟩

theorem closeCalls_outgoing (status : Int) (s : Server) :
    ∀ c ∈ closeCalls status s, c.incoming = false := by
  unfold closeCalls
  split_ifs <;> simp [Call.incoming]

theorem closeAndFreeServer_unnoticed {status : Int} (h : closeAndFreeServer status w = .ok w') :
    Unnoticed w w' := by
  have hcloses := closeAndFreeServer_closes h
  obtain ⟨s, calls, -, htrace, hsub⟩ := hcloses.trace
  refine ⟨fun s' hs' => ?_, calls, htrace, fun c hc => ?_⟩
  · rw [hcloses.server] at hs'
    cases hs'
  · exact closeCalls_outgoing status s c (hsub.subset hc)

/-- What the application calls makes no difference. -/
theorem keptByCalls_unnoticed : KeptByCalls Unnoticed where
  refl := fun w => ⟨fun s hs => ⟨s, hs, rfl⟩, Silent.refl w.trace⟩
  trans := Unnoticed.trans
  script := fun w _ => ⟨fun s hs => ⟨s, hs, rfl⟩, Silent.refl w.trace⟩
  write := by
    intro w s s' hs hhandle
    refine ⟨fun t ht => ?_, Silent.refl w.trace⟩
    obtain rfl : s' = t := Option.some.inj ht
    exact ⟨s, hs, hhandle⟩
  setBase := fun w _ => ⟨fun s hs => ⟨s, hs, rfl⟩, Silent.refl w.trace⟩
  note := by
    intro w fd sentBy packet ok
    cases packet with
    | none => exact ⟨fun s hs => ⟨s, hs, rfl⟩, Silent.refl w.trace⟩
    | some packet => exact unnoticed_note rfl
  close := fun _ _ _ hclose => closeAndFreeServer_unnoticed hclose

end Unnoticed

-- ============================================================================
-- Events
-- ============================================================================

section Events

variable {w : World}

/-- What a callback does. -/
theorem runCallback_attends (h : Attends w) : Safe Foreign Attends (runCallback w) :=
  (keptByCalls_unnoticed.callback w).mono (fun _ hv => h.unnoticed hv)

/-- **A frame** is handed over if it is no response. -/
theorem handleFrame_attends (h : Attends w) (cb : Callback) (context : Context) (f : Frame) :
    Safe Foreign Attends (handleFrame (receiver (some cb) context) f w) := by
  simp only [Ipc.handleFrame, receiver]
  split_ifs with hnew
  · have hheeded : Heeded (w.trace ++ [.frame 0 f,
        .receiveCallback 0 (deliveredSeqNum 0 (getSeqId f.seqNum)) f.payload context]) :=
      h.heeded.append (heeded_message hnew 0 context)
    rw [List.append_cons] at hheeded
    exact runCallback_attends ⟨h.listens, hheeded⟩
  · have hnoted : Attends (w.note (.frame 0 f)) :=
      ⟨h.listens, h.heeded.append (heeded_response hnew)⟩
    unfold World.deref
    cases hs : (w.note (.frame 0 f)).server with
    | none => exact fun h => h rfl
    | some s =>
        simp only [bind, Except.bind, pure, Except.pure]
        generalize takeResponse (getSeqId f.seqNum) s.reqControl (w.note (.frame 0 f)).base = taken
        obtain ⟨found, rc, base⟩ := taken
        cases found with
        | none => exact hnoted
        | some req =>
            have hset := keptByCalls_unnoticed.write _ s { s with reqControl := rc } hs rfl
            have htaken := hnoted.unnoticed (hset.trans (keptByCalls_unnoticed.setBase _ base))
            cases hcb : req.responseCallback with
            | none =>
                simp only [hcb]
                exact htaken
            | some cb =>
                simp only [hcb]
                exact runCallback_attends (htaken.unnoticed (unnoticed_note rfl))

/-- What `af_ipcc_client_on_recv` takes, it hands over. -/
theorem onRecv_attends (h : Attends w) (results : List RecvResult) :
    Safe Foreign Attends (afIpccClientOnRecv results w) := by
  refine recvLoop_keeps (fun v hv => ?_) (fun v hv => ?_)
    (fun status v hv => (keptByCalls_unnoticed.closing status v).mono (fun _ hu => hv.unnoticed hu))
    results h
  · simp only [hooks, World.deref]
    cases hs : v.server with
    | none => exact fun h => h rfl
    | some s =>
        -- the callback that is evaluated here is the one of every frame of the chunk
        obtain ⟨cb, hcb⟩ := Option.isSome_iff_exists.mp (hv.listens s hs)
        refine ⟨hv.unnoticed (keptByCalls_unnoticed.write v s _ hs rfl), fun f u hu => ?_⟩
        rw [hcb]
        exact handleFrame_attends hu cb s.receiveContext f
  · simp only [hooks, World.deref]
    cases hs : v.server with
    | none => exact fun h => h rfl
    | some s => exact hv.unnoticed (keptByCalls_unnoticed.write v s _ hs rfl)

/-- A timer hands nothing over. -/
theorem onTimeout_attends (h : Attends w) (event : Nat) :
    Safe (fun f => Foreign f ∧ f ≠ .staleTimer) Attends (onTimeout event w) := by
  unfold Ipcc.onTimeout
  cases w.base.timerOf event with
  | none => exact h
  | some ptr =>
      dsimp only
      cases hs : w.server with
      | none => exact fun hno => hno.2 rfl
      | some s =>
          dsimp only
          cases hout : afIpcOnTimeout ptr s.reqControl (timerFired event w.base) with
          | error e =>
              obtain rfl := afIpcOnTimeout_error hout
              exact fun hno => hno.2 rfl
          | ok out =>
              obtain ⟨req, rc, base⟩ := out
              have hset := keptByCalls_unnoticed.write w s { s with reqControl := rc } hs rfl
              have htaken := h.unnoticed (hset.trans (keptByCalls_unnoticed.setBase _ base))
              simp only [bind, Except.bind]
              cases req.responseCallback with
              | none => exact htaken
              | some cb =>
                  refine (runCallback_attends (htaken.unnoticed (unnoticed_note rfl))).weaken ?_
                  exact fun _ hf => hf.1

/-- **One event.** -/
theorem clientStep_attends (h : Attends w) (e : ClientEvent) :
    Safe (fun f => Foreign f ∧ f ≠ .staleTimer) Attends (clientStep w e) := by
  have hscripted : ∀ script, Attends { w with script := script } := fun script =>
    h.unnoticed (keptByCalls_unnoticed.script w script)
  cases e with
  | recv results script =>
      simp only [clientStep]
      split_ifs
      · exact (onRecv_attends (hscripted script) results).weaken (fun _ hf => hf.1)
      · exact h
  | timeout event script => exact onTimeout_attends (hscripted script) event
  | call action =>
      refine ((keptByCalls_unnoticed.action w action).mono (fun _ hv => h.unnoticed hv)).weaken ?_
      exact fun _ hf => hf.1

end Events

end AfIpc.Ipcc
