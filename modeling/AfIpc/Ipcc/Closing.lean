/-
  AfIpc.Ipcc.Closing

  `af_ipcc_close` called from a callback.  It marks the connection, and
  `af_ipcc_client_on_recv` frees it once `af_ipc_handle_receive_message` is back,
  which has by then gone on to the end of the chunk: the frames behind the one
  whose callback called it are handled as before.
-/

import AfIpc.Ipcc.Runs

namespace AfIpc.Ipcc

open AfIpc.Lib AfIpc.Ipc

-- ============================================================================
-- Callbacks
-- ============================================================================

/-- The calls to the application. -/
def isCallback : Call → Bool
  | .receiveCallback _ _ _ _ => true
  | .responseCallback _ _ _ _ _ => true
  | .closeCallback _ _ _ _ => true
  | .acceptCallback _ => true
  | _ => false

def callbacksOf (trace : List Call) : List Call := trace.filter isCallback

@[simp] theorem callbacksOf_append (t t' : List Call) :
    callbacksOf (t ++ t') = callbacksOf t ++ callbacksOf t' := List.filter_append ..

/-- The close callback of a connection that the application closes. -/
def closeReport (s : Server) : List Call :=
  if s.closeCallback.isSome then [.closeCallback 0 statusOk 0 s.receiveContext] else []

theorem callbacksOf_closeCalls (s : Server) :
    callbacksOf (closeCalls statusOk s) = closeReport s := by
  unfold closeCalls closeReport
  split_ifs <;> rfl

-- ============================================================================
-- Frames that no callback hears of
-- ============================================================================

instance : DecidablePred Frame.IsNew := fun f =>
  inferInstanceAs (Decidable (getSeqId f.seqNum = 0 ∨ isNewRequest (getSeqId f.seqNum) = true))

/-- How many of the frames are responses with the number. -/
def responsesTo (seqNum : BitVec 32) (fs : List Frame) : Nat :=
  fs.countP (fun f => ¬ f.IsNew ∧ getSeqId f.seqNum = seqNum)

/-- The pending requests with the number that the frames complete: a response
    completes the first, and takes it off the list. -/
def completedBy (fs : List Frame) (pending : List Request) (seqNum : BitVec 32) : List Request :=
  (pending.filter (fun r => r.seqNum = seqNum)).take (responsesTo seqNum fs)

/-- No callback hears of the frames: the application has no receive callback, or
    none of them is a request or an unsolicited message, and the requests that
    they complete have no callback. -/
structure Unheard (callback : Option Callback) (pending : List Request) (fs : List Frame) :
    Prop where
  received : callback = none ∨ ∀ f ∈ fs, ¬ f.IsNew
  responded : ∀ seqNum, ∀ r ∈ completedBy fs pending seqNum, r.responseCallback = none

section Unheard

variable {callback : Option Callback} {pending : List Request} {f : Frame} {fs : List Frame}

theorem unheard_nil (callback : Option Callback) (pending : List Request) :
    Unheard callback pending [] := by
  refine ⟨.inr (fun f hf => absurd hf List.not_mem_nil), fun seqNum r hr => ?_⟩
  simp [completedBy, responsesTo] at hr

theorem responsesTo_cons_new (hnew : f.IsNew) (seqNum : BitVec 32) :
    responsesTo seqNum (f :: fs) = responsesTo seqNum fs := by
  simp [responsesTo, hnew]

theorem responsesTo_cons_self (hold : ¬ f.IsNew) :
    responsesTo (getSeqId f.seqNum) (f :: fs) = responsesTo (getSeqId f.seqNum) fs + 1 := by
  simp [responsesTo, hold]

theorem responsesTo_cons_of_ne {seqNum : BitVec 32} (hne : getSeqId f.seqNum ≠ seqNum) :
    responsesTo seqNum (f :: fs) = responsesTo seqNum fs := by
  simp [responsesTo, hne]

/-- A request or an unsolicited message in front. -/
theorem unheard_cons_new (hnew : f.IsNew) :
    Unheard callback pending (f :: fs) ↔ callback = none ∧ Unheard callback pending fs := by
  have hsame : ∀ seqNum, completedBy (f :: fs) pending seqNum = completedBy fs pending seqNum := by
    intro seqNum
    rw [completedBy, responsesTo_cons_new hnew, completedBy]
  refine ⟨?_, ?_⟩
  · intro h
    have hnone : callback = none := by
      rcases h.received with hnone | hall
      · exact hnone
      · exact absurd hnew (hall f List.mem_cons_self)
    refine ⟨hnone, .inl hnone, fun seqNum r hr => h.responded seqNum r ?_⟩
    rw [hsame]
    exact hr
  · rintro ⟨hnone, h⟩
    refine ⟨.inl hnone, fun seqNum r hr => h.responded seqNum r ?_⟩
    rw [← hsame]
    exact hr

theorem unheard_received_cons (hold : ¬ f.IsNew) :
    (callback = none ∨ ∀ g ∈ f :: fs, ¬ g.IsNew) ↔ callback = none ∨ ∀ g ∈ fs, ¬ g.IsNew := by
  rw [List.forall_mem_cons]
  simp only [hold, not_false_eq_true, true_and]

/-- A response that no request is pending for in front. -/
theorem unheard_cons_unmatched (hold : ¬ f.IsNew)
    (hnone : ∀ r ∈ pending, r.seqNum ≠ getSeqId f.seqNum) :
    Unheard callback pending (f :: fs) ↔ Unheard callback pending fs := by
  have hsame : ∀ seqNum, completedBy (f :: fs) pending seqNum = completedBy fs pending seqNum := by
    intro seqNum
    by_cases heq : getSeqId f.seqNum = seqNum
    · have hempty : pending.filter (fun r => r.seqNum = seqNum) = [] := by
        rw [List.filter_eq_nil_iff]
        intro r hr
        have hne := hnone r hr
        rw [heq] at hne
        simpa using hne
      rw [completedBy, completedBy, hempty, List.take_nil, List.take_nil]
    · rw [completedBy, responsesTo_cons_of_ne heq, completedBy]
  refine ⟨?_, ?_⟩
  · intro h
    refine ⟨(unheard_received_cons hold).mp h.received, fun seqNum r hr => h.responded seqNum r ?_⟩
    rw [hsame]
    exact hr
  · intro h
    refine ⟨(unheard_received_cons hold).mpr h.received, fun seqNum r hr => h.responded seqNum r ?_⟩
    rw [← hsame]
    exact hr

/-- A response in front, and the request that it completes. -/
theorem unheard_cons_matched (hold : ¬ f.IsNew) {req : Request}
    (hfind : pending.find? (fun r => r.seqNum = getSeqId f.seqNum) = some req) :
    Unheard callback pending (f :: fs) ↔ req.responseCallback = none ∧
      Unheard callback (pending.eraseP (fun r => r.seqNum = getSeqId f.seqNum)) fs := by
  have hhead : (pending.filter (fun r => r.seqNum = getSeqId f.seqNum)).head? = some req := by
    rw [List.head?_filter]
    exact hfind
  have hself : completedBy (f :: fs) pending (getSeqId f.seqNum) =
      req :: completedBy fs (pending.eraseP (fun r => r.seqNum = getSeqId f.seqNum))
        (getSeqId f.seqNum) := by
    rw [completedBy, responsesTo_cons_self hold, completedBy, filter_eraseP_self]
    cases hmatch : pending.filter (fun r => r.seqNum = getSeqId f.seqNum) with
    | nil =>
        rw [hmatch] at hhead
        cases hhead
    | cons r rs =>
        rw [hmatch, List.head?_cons] at hhead
        cases hhead
        rw [List.take_succ_cons, List.tail_cons]
  have hother : ∀ seqNum, seqNum ≠ getSeqId f.seqNum →
      completedBy (f :: fs) pending seqNum =
        completedBy fs (pending.eraseP (fun r => r.seqNum = getSeqId f.seqNum)) seqNum := by
    intro seqNum hne
    rw [completedBy, responsesTo_cons_of_ne (Ne.symm hne), completedBy, filter_eraseP_of_ne hne]
  refine ⟨?_, ?_⟩
  · intro h
    refine ⟨h.responded (getSeqId f.seqNum) req ?_, (unheard_received_cons hold).mp h.received,
      fun seqNum r hr => h.responded seqNum r ?_⟩
    · rw [hself]
      exact List.mem_cons_self
    · by_cases heq : seqNum = getSeqId f.seqNum
      · subst heq
        rw [hself]
        exact List.mem_cons_of_mem req hr
      · rw [hother seqNum heq]
        exact hr
  · rintro ⟨hnone, h⟩
    refine ⟨(unheard_received_cons hold).mpr h.received, fun seqNum r hr => ?_⟩
    by_cases heq : seqNum = getSeqId f.seqNum
    · subst heq
      rw [hself] at hr
      rcases List.mem_cons.mp hr with rfl | hr
      · exact hnone
      · exact h.responded _ r hr
    · rw [hother seqNum heq] at hr
      exact h.responded seqNum r hr

end Unheard

-- ============================================================================
-- One frame
-- ============================================================================

/-- What the handler comes to for a frame on the open connection `s`: it goes on
    without a callback, or it calls one. -/
inductive Hearing (callback : Option Callback) (F : BitVec 16 → Prop) (f : Frame) (w : World)
    (s : Server) : Except Fault World → Prop
  | silent {v : World} {t : Server} (server : v.server = some t) (handle : t.handle = s.handle)
      (alive : OpenWith F v) (sane : Sane v) (callbacks : callbacksOf v.trace = callbacksOf w.trace)
      (rest : ∀ fs, Unheard callback s.reqControl.pendingRequests (f :: fs) ↔
        Unheard callback t.reqControl.pendingRequests fs) :
      Hearing callback F f w s (.ok v)
  | called {v : World} {c : Call} (alive : OpenWith F v) (sane : Sane v)
      (handle : ∀ t, v.server = some t → t.handle = s.handle) (script : v.script = w.script)
      (callbacks : callbacksOf v.trace = callbacksOf w.trace ++ [c]) (hc : c.isClose 0 = false)
      (heard : ∀ fs, ¬ Unheard callback s.reqControl.pendingRequests (f :: fs)) :
      Hearing callback F f w s (runCallback v)

section OneFrame

variable {w : World} {s : Server} {F : BitVec 16 → Prop}

theorem callbacksOf_frame (t : List Call) (conn : Nat) (f : Frame) :
    callbacksOf (t ++ [.frame conn f]) = callbacksOf t := by
  rw [callbacksOf_append]
  exact List.append_nil _

/-- **One frame** of a chunk. -/
theorem handleFrame_hearing (hs : w.server = some s) (hsane : Sane w) (halive : OpenWith F w)
    (callback : Option Callback) (context : Context) (f : Frame) :
    Hearing callback F f w s (handleFrame (receiver callback context) f w) := by
  have hdispatched := handleFrame_dispatched hs callback context f
  generalize handleFrame (receiver callback context) f w = out at hdispatched
  cases hdispatched with
  | unheard hnew hcb =>
      refine .silent hs rfl (halive.note rfl rfl) (skip_evolves hsane hs (.inl hnew)).1
        (callbacksOf_frame w.trace 0 f) (fun fs => ?_)
      rw [unheard_cons_new hnew]
      exact and_iff_right hcb
  | received hnew hcb =>
      have hcallbacks : callbacksOf ((w.trace ++ [.frame 0 f]) ++ [.receiveCallback 0
            (deliveredSeqNum 0 (getSeqId f.seqNum)) f.payload context]) =
          callbacksOf w.trace ++
            [.receiveCallback 0 (deliveredSeqNum 0 (getSeqId f.seqNum)) f.payload context] := by
        rw [callbacksOf_append, callbacksOf_frame]
        rfl
      refine .called ((halive.note rfl rfl).note rfl rfl)
        (deliver_evolves hsane hs hnew context).1 (fun t ht => ?_) rfl hcallbacks rfl (fun fs h => ?_)
      · obtain rfl := Option.some.inj (hs.symm.trans ht)
        rfl
      · exact hcb ((unheard_cons_new hnew).mp h).1
  | unmatched hold hnone =>
      refine .silent hs rfl (halive.note rfl rfl) (skip_evolves hsane hs (.inr hnone)).1
        (callbacksOf_frame w.trace 0 f) (fun fs => ?_)
      exact unheard_cons_unmatched hold hnone
  | uncalled hold htake hcb =>
      obtain ⟨hfind, rfl, -⟩ := takeResponse_found htake
      refine .silent rfl rfl (halive.completed hs htake rfl rfl)
        (complete_evolves hsane hs hold htake (.inl rfl) (fun _ => hcb)).1 (callbacksOf_frame w.trace 0 f)
        (fun fs => ?_)
      rw [unheard_cons_matched hold hfind]
      exact and_iff_right hcb
  | @responded req rc base hold htake hcb =>
      obtain ⟨hfind, -⟩ := takeResponse_found htake
      have hcallbacks : callbacksOf (w.trace ++
            [.frame 0 f, .responseCallback 0 req statusOk (getSeqId f.seqNum) f.payload]) =
          callbacksOf w.trace ++
            [.responseCallback 0 req statusOk (getSeqId f.seqNum) f.payload] := by
        rw [callbacksOf_append]
        rfl
      refine .called (halive.completed hs htake rfl rfl)
        (complete_evolves hsane hs hold htake (.inr rfl) (fun hnil => by cases hnil)).1
        (fun t ht => ?_) rfl hcallbacks rfl (fun fs h => ?_)
      · obtain rfl := Option.some.inj ht
        rfl
      · exact hcb ((unheard_cons_matched hold hfind).mp h).1

end OneFrame

-- ============================================================================
-- The rest of a chunk
-- ============================================================================

section Rest

variable {w : World} {s : Server} {callback : Option Callback} {context : Context}
  {fs : List Frame}

/-- Frames that no callback hears of leave the connection as it is. -/
theorem handleFrames_unheard {F : BitVec 16 → Prop} (hs : w.server = some s) (hsane : Sane w)
    (halive : OpenWith F w)
    (hunheard : Unheard callback s.reqControl.pendingRequests fs) :
    ∃ w' s', run (fun w f => handleFrame (receiver callback context) f w) w fs = .ok w' ∧
      w'.server = some s' ∧ s'.handle = s.handle ∧ OpenWith F w' ∧
      callbacksOf w'.trace = callbacksOf w.trace := by
  induction fs generalizing w s with
  | nil => exact ⟨w, s, rfl, hs, rfl, halive, rfl⟩
  | cons f fs ih =>
      have hhearing := handleFrame_hearing hs hsane halive callback context f
      rw [run_cons]
      generalize handleFrame (receiver callback context) f w = out at hhearing
      cases hhearing with
      | silent hserver hhandle halive' hsane' hcallbacks hrest =>
          obtain ⟨w', s', hrun, hs', hhandle', halive'', hcallbacks'⟩ :=
            ih hserver hsane' halive' ((hrest fs).mp hunheard)
          exact ⟨w', s', hrun, hs', hhandle'.trans hhandle, halive'', hcallbacks'.trans hcallbacks⟩
      | called _ _ _ _ _ _ hheard => exact absurd hunheard (hheard fs)

/-- Behind a callback the calls to the application only become more. -/
theorem handleFrames_grows (hsane : Sane w) (halive : OpenWith ReceivingFlags w) {w₁ w' : World}
    (hcall : runCallback w = .ok w₁)
    (hrun : run (fun w f => handleFrame (receiver callback context) f w) w₁ fs = .ok w')
    {s' : Server} (hs' : w'.server = some s') :
    ∃ calls, callbacksOf w'.trace = callbacksOf w.trace ++ calls := by
  have hloop : OpenWith (LoopFlags False) w := halive.mono (fun f hf => ⟨hf, False.elim⟩)
  have hstart : Evolves w w (([] : List Frame).map (Prod.mk 0)) := .refl w
  have hserved := (Served.callback (n := fs.length) hsane hloop False.elim hstart).of_ok hcall
  have hrest := (handleFrames_served (n := 0) callback context fs hserved).of_ok hrun
  cases hrest with
  | live _ _ _ hevolves =>
      obtain ⟨calls, hcalls⟩ := hevolves.steps.trace
      have htrace : w'.trace = w.trace ++ calls := hcalls
      rw [htrace, callbacksOf_append]
      exact ⟨_, rfl⟩
  | freed _ hnone =>
      rw [hnone] at hs'
      cases hs'

/-- If a callback hears of a frame, it is called. -/
theorem handleFrames_heard (hs : w.server = some s) (hsane : Sane w)
    (halive : OpenWith ReceivingFlags w)
    (hheard : ¬ Unheard callback s.reqControl.pendingRequests fs) {w' : World} {s' : Server}
    (hrun : run (fun w f => handleFrame (receiver callback context) f w) w fs = .ok w')
    (hs' : w'.server = some s') :
    ∃ c calls, callbacksOf w'.trace = callbacksOf w.trace ++ c :: calls ∧ c.isClose 0 = false := by
  induction fs generalizing w s with
  | nil => exact absurd (unheard_nil callback _) hheard
  | cons f fs ih =>
      have hhearing := handleFrame_hearing hs hsane halive callback context f
      rw [run_cons, bind_eq_ok] at hrun
      obtain ⟨v, hv, hrest⟩ := hrun
      rw [hv] at hhearing
      generalize hout : (Except.ok v : Except Fault World) = out at hhearing
      cases hhearing with
      | silent hserver _ halive' hsane' hcallbacks hunheard =>
          obtain rfl := Except.ok.inj hout
          obtain ⟨c, calls, hgrown, hc⟩ :=
            ih hserver hsane' halive' (fun h => hheard ((hunheard fs).mpr h)) hrest
          refine ⟨c, calls, ?_, hc⟩
          rw [hgrown, hcallbacks]
      | @called x c halive' hsane' _ _ hcallbacks hc _ =>
          obtain ⟨calls, hgrown⟩ := handleFrames_grows hsane' halive' hout.symm hrest hs'
          refine ⟨c, calls, ?_, hc⟩
          rw [hgrown, hcallbacks, List.append_assoc]
          rfl

/-- Once the handle has been freed it stays so. -/
theorem handleFrames_freed (hnone : w.server = none) {w' : World}
    (hrun : run (fun w f => handleFrame (receiver callback context) f w) w fs = .ok w') :
    w'.server = none := by
  induction fs generalizing w with
  | nil =>
      obtain rfl := Except.ok.inj hrun
      exact hnone
  | cons f fs ih =>
      rw [run_cons, bind_eq_ok] at hrun
      obtain ⟨v, hv, hrest⟩ := hrun
      exact ih (handleFrame_freed hnone callback context f hv) hrest

end Rest

-- ============================================================================
-- The callback that closes
-- ============================================================================

/-- The flags in the receive loop once the application has closed the connection. -/
def MarkedFlags (f : BitVec 16) : Prop := f = flagsInReceive ||| flagsMarkedForShutdown

theorem MarkedFlags.receiving {f : BitVec 16} (h : MarkedFlags f) : ReceivingFlags f := Or.inr h

section Callback

variable {w w' : World} {F : BitVec 16 → Prop}

theorem runAction_close (h : OpenWith ReceivingFlags w) (hrun : runAction w .close = .ok w') :
    OpenWith MarkedFlags w' := by
  obtain ⟨s, hderef, hs, hfd, hF, hbase⟩ := h.deref
  have hsome : ¬ w.server.isNone = true := by
    rw [hs]
    exact Bool.false_ne_true
  have hin : s.flags &&& flagsInReceive ≠ 0 := by
    rcases hF with hf | hf <;> rw [hf] <;> decide
  have hmarked : MarkedFlags (s.flags ||| flagsMarkedForShutdown) := by
    rcases hF with hf | hf <;> rw [hf]
    · rfl
    · show _ = _
      decide
  simp only [runAction] at hrun
  rw [if_neg hsome] at hrun
  simp only [afIpccClose, hderef, bind, Except.bind] at hrun
  rw [if_pos hin] at hrun
  obtain rfl := Except.ok.inj hrun
  exact h.update hfd hmarked hbase

/-- Calls that do not fail keep the connection open. -/
theorem runActions_keeps (hF : ∀ f, F f → ReceivingFlags f) (hmarked : ∀ f, MarkedFlags f → F f)
    (h : OpenWith F w) {actions : List Action} (hcalls : ∀ a ∈ actions, a.fails = false)
    (hrun : run runAction w actions = .ok w') : OpenWith F w' := by
  induction actions generalizing w with
  | nil =>
      obtain rfl := Except.ok.inj hrun
      exact h
  | cons a actions ih =>
      rw [run_cons, bind_eq_ok] at hrun
      obtain ⟨v, hv, hrest⟩ := hrun
      have hone : OpenWith F v := by
        by_cases hclose : a = .close
        · subst hclose
          exact (runAction_close (h.mono hF) hv).mono hmarked
        · obtain ⟨v', hv', _, hkeep⟩ := runAction_send h hclose
          obtain rfl : v = v' := Except.ok.inj (hv.symm.trans hv')
          exact (hkeep (hcalls a List.mem_cons_self)).1
      exact ih hone (fun b hb => hcalls b (List.mem_cons_of_mem a hb)) hrest

/-- A call that fails frees it for good. -/
theorem runActions_fails (h : OpenWith ReceivingFlags w) {actions : List Action}
    (hcalls : ¬ ∀ a ∈ actions, a.fails = false) (hrun : run runAction w actions = .ok w') :
    w'.server = none := by
  induction actions generalizing w with
  | nil => exact absurd (fun a ha => absurd ha List.not_mem_nil) hcalls
  | cons a actions ih =>
      rw [run_cons, bind_eq_ok] at hrun
      obtain ⟨v, hv, hrest⟩ := hrun
      by_cases hclose : a = .close
      · subst hclose
        have hopen := (runAction_close h hv).mono (fun f hf => hf.receiving)
        refine ih hopen (fun hall => hcalls (fun b hb => ?_)) hrest
        rcases List.mem_cons.mp hb with rfl | hb
        · rfl
        · exact hall b hb
      · obtain ⟨v', hv', hfree, hkeep⟩ := runAction_send h hclose
        obtain rfl : v = v' := Except.ok.inj (hv.symm.trans hv')
        cases hf : a.fails with
        | true =>
            have hnone := (hfree hf).server
            rw [runActions_freed hnone] at hrest
            obtain rfl := Except.ok.inj hrest
            exact hnone
        | false =>
            refine ih (hkeep hf).1 (fun hall => hcalls (fun b hb => ?_)) hrest
            rcases List.mem_cons.mp hb with rfl | hb
            · exact hf
            · exact hall b hb

/-- **A callback that closes the connection** leaves it marked, unless a send of
    the same callback fails afterwards. -/
theorem runCallback_closes (h : OpenWith ReceivingFlags w) {before after : List Action}
    {scripts : List (List Action)} (hscript : w.script = (before ++ .close :: after) :: scripts)
    (hbefore : ∀ a ∈ before, a.fails = false) (hrun : runCallback w = .ok w') :
    ((∀ a ∈ after, a.fails = false) → OpenWith MarkedFlags w') ∧
      ((¬ ∀ a ∈ after, a.fails = false) → w'.server = none) := by
  simp only [runCallback, hscript] at hrun
  rw [run_append, bind_eq_ok] at hrun
  obtain ⟨v, hv, hrest⟩ := hrun
  rw [run_cons, bind_eq_ok] at hrest
  obtain ⟨v', hclose, hafter⟩ := hrest
  have hstart : OpenWith ReceivingFlags { w with script := scripts } :=
    ⟨h.server, h.closes, h.releases⟩
  have hopen := runActions_keeps (fun f hf => hf) (fun f hf => hf.receiving) hstart hbefore hv
  have hmarked := runAction_close hopen hclose
  refine ⟨fun hcalls => ?_, fun hcalls => ?_⟩
  · exact runActions_keeps (fun f hf => hf.receiving) (fun f hf => hf) hmarked hcalls hafter
  · exact runActions_fails (hmarked.mono (fun f hf => hf.receiving)) hcalls hafter

/-- The mark stays as long as the connection is open. -/
theorem runCallback_marked (h : OpenWith MarkedFlags w) (hrun : runCallback w = .ok w')
    {s' : Server} (hs' : w'.server = some s') : OpenWith MarkedFlags w' := by
  unfold runCallback at hrun
  split at hrun
  · obtain rfl := Except.ok.inj hrun
    exact h
  · rename_i actions script _
    have hstart : OpenWith MarkedFlags { w with script := script } :=
      ⟨h.server, h.closes, h.releases⟩
    by_cases hcalls : ∀ a ∈ actions, a.fails = false
    · exact runActions_keeps (fun f hf => hf.receiving) (fun f hf => hf) hstart hcalls hrun
    · have hnone := runActions_fails (hstart.mono (fun f hf => hf.receiving)) hcalls hrun
      rw [hs'] at hnone
      cases hnone

theorem handleFrames_marked {callback : Option Callback} {context : Context} {fs : List Frame}
    (hsane : Sane w) (h : OpenWith MarkedFlags w)
    (hrun : run (fun w f => handleFrame (receiver callback context) f w) w fs = .ok w')
    {s' : Server} (hs' : w'.server = some s') : OpenWith MarkedFlags w' := by
  induction fs generalizing w with
  | nil =>
      obtain rfl := Except.ok.inj hrun
      exact h
  | cons f fs ih =>
      obtain ⟨s, hs, -⟩ := h.server
      have hhearing := handleFrame_hearing hs hsane h callback context f
      rw [run_cons, bind_eq_ok] at hrun
      obtain ⟨v, hv, hrest⟩ := hrun
      rw [hv] at hhearing
      generalize hout : (Except.ok v : Except Fault World) = out at hhearing
      cases hhearing with
      | silent _ _ halive hsane' _ _ =>
          obtain rfl := Except.ok.inj hout
          exact ih hsane' halive hrest
      | called halive hsane' _ _ _ _ _ =>
          obtain ⟨v', hv', hsanev, -⟩ := runCallback_evolves hsane'
          obtain rfl : v = v' := Except.ok.inj (hout.trans hv')
          cases hserver : v.server with
          | none =>
              have hnone := handleFrames_freed hserver hrest
              rw [hs'] at hnone
              cases hnone
          | some t => exact ih hsanev (runCallback_marked halive hout.symm hserver) hrest

end Callback

-- ============================================================================
-- The event
-- ============================================================================

theorem closeAndFreeServer_none {w v : World} {status : Int}
    (hrun : closeAndFreeServer status w = .ok v) : v.server = none := by
  unfold closeAndFreeServer at hrun
  rw [bind_eq_ok] at hrun
  obtain ⟨s, _, hrun⟩ := hrun
  dsimp only at hrun
  split_ifs at hrun <;>
    · obtain rfl := Except.ok.inj hrun
      rfl

/-- The loop over results that leave the connection open goes on behind them. -/
theorem recvLoop_append {w v : World} {earlier : List RecvResult}
    (hdata : OnlyData earlier) (rest : List RecvResult)
    (hrun : recvLoop hooks earlier w = .ok v) {s : Server} (hs : v.server = some s) :
    recvLoop hooks (earlier ++ rest) w = recvLoop hooks rest v := by
  induction earlier generalizing w with
  | nil =>
      obtain rfl := Except.ok.inj hrun
      rfl
  | cons r earlier ih =>
      obtain ⟨bytes, rfl⟩ := hdata r List.mem_cons_self
      rw [List.cons_append]
      simp only [recvLoop] at hrun ⊢
      rw [bind_eq_ok] at hrun
      obtain ⟨⟨R, w₁⟩, henter, hrun⟩ := hrun
      dsimp only at hrun
      rw [bind_eq_ok] at hrun
      obtain ⟨w₂, hhandle, hrun⟩ := hrun
      rw [bind_eq_ok] at hrun
      obtain ⟨⟨marked, w₃⟩, hleave, hrun⟩ := hrun
      dsimp only at hrun
      simp only [henter, hhandle, hleave, bind, Except.bind]
      cases marked with
      | true =>
          -- the connection would be freed
          rw [if_pos rfl] at hrun
          have hnone := closeAndFreeServer_none hrun
          rw [hnone] at hs
          cases hs
      | false =>
          rw [if_neg Bool.false_ne_true] at hrun ⊢
          exact ih (fun r hr => hdata r (List.mem_cons_of_mem _ hr)) hrun

/-- An event in the state `w₁` in which the callback of a frame calls
    `af_ipcc_close`: the receive loop has got to a chunk in the state `w`, the
    handler has handled the frames `fs` of it and is in the state `u` before the
    frame `f`, and in the state `v` when the callback has returned. -/
structure ClosingEvent (w₁ : World) where
  earlier : List RecvResult
  bytes : List Byte
  rest : List RecvResult
  script : List (List Action)
  w : World
  s : Server
  fs : List Frame
  f : Frame
  gs : List Frame
  u : World
  t : Server
  before : List Action
  after : List Action
  scripts : List (List Action)
  v : World
  watched : watches w₁.base = true
  chunks : OnlyData earlier
  reached : afIpccClientOnRecv earlier { w₁ with script := script } = .ok w
  server : w.server = some s
  items : frames.items bytes = fs ++ f :: gs
  handled : run (fun w f => handleFrame (receiver s.receiveCallback s.receiveContext) f w)
    (w.setServer { s with flags := s.flags ||| flagsInReceive }) fs = .ok u
  alive : u.server = some t
  /-- The frame has a callback. -/
  heard : ¬ Unheard s.receiveCallback t.reqControl.pendingRequests [f]
  calls : u.script = (before ++ .close :: after) :: scripts
  /-- The connection is open when `af_ipcc_close` is called. -/
  open_ : ∀ a ∈ before, a.fails = false
  returned : handleFrame (receiver s.receiveCallback s.receiveContext) f u = .ok v

/-- What the loop leaves behind the chunk of a connection that is marked. -/
def World.leftMarked (w : World) (s : Server) : World :=
  (w.setServer { s with flags := flagsMarkedForShutdown }).closed statusOk
    { s with flags := flagsMarkedForShutdown }

/-- A connection that is marked is freed behind the chunk. -/
theorem leave_marked {w : World} {s : Server} (h : OpenWith MarkedFlags w) (hs : w.server = some s)
    (rest : List RecvResult) :
    (hooks.leave w >>= fun p =>
      if p.1 then closeAndFreeServer statusOk p.2 else recvLoop hooks rest p.2) =
        .ok (w.leftMarked s) ∧
      callbacksOf (w.leftMarked s).trace = callbacksOf w.trace ++ closeReport s ∧
      Freed (w.leftMarked s) := by
  obtain ⟨t, ht, hfd, hF, hbase⟩ := h.server
  obtain rfl := Option.some.inj (hs.symm.trans ht)
  have hflags : s.flags &&& ~~~flagsInReceive = flagsMarkedForShutdown := by
    rw [hF]
    decide
  have hleave : hooks.leave w =
      .ok (true, w.setServer { s with flags := flagsMarkedForShutdown }) := by
    simp only [hooks, deref_eq hs, bind, Except.bind, pure, Except.pure, hflags]
    rfl
  have hopen : OpenWith (fun _ => True) (w.setServer { s with flags := flagsMarkedForShutdown }) :=
    h.update hfd trivial hbase
  have hclose := @closeAndFreeServer_eq (w.setServer { s with flags := flagsMarkedForShutdown }) _
    rfl hfd statusOk
  refine ⟨?_, ?_, ?_⟩
  · rw [hleave]
    exact hclose
  · show callbacksOf (w.trace ++ closeCalls statusOk _) = _
    rw [callbacksOf_append, callbacksOf_closeCalls]
    rfl
  · obtain ⟨v, hv, hfreed⟩ := closeAndFreeServer_freed hopen statusOk
    obtain rfl : v = w.leftMarked s := Except.ok.inj (hv.symm.trans hclose)
    exact hfreed

/-- Behind a connection that has been freed nothing is called. -/
theorem run_freed {w w' : World} (h : Freed w) (later : List ClientEvent)
    (hrun : run clientStep w later = .ok w') : w'.trace = w.trace := by
  induction later generalizing w with
  | nil =>
      obtain rfl := Except.ok.inj hrun
      rfl
  | cons e later ih =>
      rw [run_cons, bind_eq_ok] at hrun
      obtain ⟨v, hv, hrest⟩ := hrun
      have hone : Freed v ∧ v.trace = w.trace := by
        cases e with
        | recv results script =>
            simp only [clientStep, h.not_watches] at hv
            obtain rfl := Except.ok.inj hv
            exact ⟨h, rfl⟩
        | timeout event script =>
            simp only [clientStep, onTimeout, h.server] at hv
            split at hv
            · obtain rfl := Except.ok.inj hv
              exact ⟨⟨rfl, h.closes, h.releases, h.events⟩, rfl⟩
            · cases hv
        | call action =>
            obtain rfl := Except.ok.inj ((runAction_freed h action).symm.trans hv)
            exact ⟨h, rfl⟩
      exact (ih hone.1 hrest).trans hone.2

theorem closeReport_handle {s t : Server} (h : t.handle = s.handle) :
    closeReport t = closeReport s := by
  have hclose : t.closeCallback = s.closeCallback := congrArg (fun p => p.2.2.1) h
  have hcontext : t.receiveContext = s.receiveContext := congrArg (fun p => p.2.2.2) h
  rw [closeReport, closeReport, hclose, hcontext]

/-- The close callback is no other callback. -/
theorem closeReport_ne {s : Server} {c : Call} (hc : c.isClose 0 = false) (calls : List Call) :
    c :: calls ≠ closeReport s := by
  intro heq
  unfold closeReport at heq
  split_ifs at heq
  obtain ⟨rfl, -⟩ := List.cons.inj heq
  cases hc

namespace ClosingEvent

variable {w₁ : World} (m : ClosingEvent w₁)

def event : ClientEvent := .recv (m.earlier ++ .data m.bytes :: m.rest) m.script

/-- Behind the callback nothing is called but the close callback, once, neither in
    the event nor in what comes after it. -/
def Silences : Prop :=
  ∃ w', clientStep w₁ m.event = .ok w' ∧
    callbacksOf w'.trace = callbacksOf m.v.trace ++ closeReport m.s ∧
    ∀ later w'', run clientStep w' later = .ok w'' → callbacksOf w''.trace = callbacksOf w'.trace

/-- The rest of the callback does not fail a send, and no callback hears of the
    rest of the chunk. -/
def Harmless : Prop :=
  (∀ a ∈ m.after, a.fails = false) ∧
    ∀ t', m.v.server = some t' →
      Unheard m.s.receiveCallback t'.reqControl.pendingRequests m.gs

variable {m}

/-- The state in which the loop enters the handler for the chunk. -/
theorem entered (hq : Quiet w₁) (hw : Sane w₁) :
    Sane (m.w.setServer { m.s with flags := m.s.flags ||| flagsInReceive }) ∧
      OpenWith ReceivingFlags
        (m.w.setServer { m.s with flags := m.s.flags ||| flagsInReceive }) := by
  have hopen : OpenWith (fun f => f = 0) w₁ := by
    rcases hq with hopen | hfreed
    · exact hopen
    · have hwatched := m.watched
      rw [hfreed.not_watches] at hwatched
      cases hwatched
  have hscripted : OpenWith (fun f => f = 0) { w₁ with script := m.script } :=
    ⟨hopen.server, hopen.closes, hopen.releases⟩
  obtain ⟨hquiet, hsane, -⟩ := (onRecv_spec (S := False) (hw.scripted m.script) hscripted m.earlier
    False.elim).of_ok m.reached
  rcases hquiet with halive | hfreed
  · obtain ⟨s, hs, hfd, hF, hbase⟩ := halive.server
    obtain rfl := Option.some.inj (m.server.symm.trans hs)
    have hconn : ({ m.s with flags := m.s.flags ||| flagsInReceive } : Server).conn = m.s.conn := rfl
    refine ⟨(setServer_spec hsane m.server hconn rfl).1, halive.update hfd ?_ hbase⟩
    show ReceivingFlags (m.s.flags ||| flagsInReceive)
    rw [hF]
    exact Or.inl rfl
  · have hnone := hfreed.server
    rw [m.server] at hnone
    cases hnone

/-- The state before the frame. -/
theorem arrived (hq : Quiet w₁) (hw : Sane w₁) :
    Sane m.u ∧ OpenWith ReceivingFlags m.u ∧ m.t.handle = m.s.handle := by
  obtain ⟨hsane, halive⟩ := m.entered hq hw
  have hstart : Evolves (m.w.setServer { m.s with flags := m.s.flags ||| flagsInReceive })
      (m.w.setServer { m.s with flags := m.s.flags ||| flagsInReceive })
      (([] : List Frame).map (Prod.mk 0)) := .refl _
  have hserved := (handleFrames_served (n := 0) m.s.receiveCallback m.s.receiveContext m.fs
    (Served.live (S := False) hsane (halive.mono fun f hf => ⟨hf, False.elim⟩) False.elim
      hstart)).of_ok m.handled
  cases hserved with
  | live hsane' halive' _ hevolves =>
      obtain ⟨t, ht, hhandle⟩ := hevolves.keeps m.t m.alive
      obtain rfl := Option.some.inj ht
      exact ⟨hsane', halive'.mono fun f hf => hf.1, hhandle⟩
  | freed _ hnone =>
      rw [m.alive] at hnone
      cases hnone

/-- The state behind the callback. -/
theorem marked (hq : Quiet w₁) (hw : Sane w₁) :
    ((∀ a ∈ m.after, a.fails = false) → ∃ t', m.v.server = some t' ∧
        t'.handle = m.s.handle ∧ Sane m.v ∧ OpenWith MarkedFlags m.v) ∧
      ((¬ ∀ a ∈ m.after, a.fails = false) → m.v.server = none) := by
  obtain ⟨hsane, halive, hhandle⟩ := m.arrived hq hw
  have hhearing := handleFrame_hearing m.alive hsane halive m.s.receiveCallback m.s.receiveContext
    m.f
  have hreturned := m.returned
  generalize handleFrame (receiver m.s.receiveCallback m.s.receiveContext) m.f m.u = out
    at hhearing hreturned
  cases hhearing with
  | silent _ _ _ _ _ hrest =>
      exact absurd ((hrest []).mpr (unheard_nil _ _)) m.heard
  | @called x c halive' hsane' hhandle' hscript _ _ _ =>
      have hcalls : x.script = (m.before ++ .close :: m.after) :: m.scripts :=
        hscript.trans m.calls
      obtain ⟨hkeep, hfree⟩ := runCallback_closes halive' hcalls m.open_ hreturned
      refine ⟨fun hafter => ?_, hfree⟩
      have hopen := hkeep hafter
      obtain ⟨t', ht', -⟩ := hopen.server
      obtain ⟨v', hv', hsanev, hevolves, -⟩ := runCallback_evolves hsane'
      obtain rfl : m.v = v' := Except.ok.inj (hreturned.symm.trans hv')
      obtain ⟨t, ht, heq⟩ := hevolves.keeps t' ht'
      exact ⟨t', ht', heq.trans ((hhandle' t ht).trans hhandle), hsanev, hopen⟩

/-- The event is the rest of the chunk, and what the loop does behind it. -/
theorem event_eq :
    clientStep w₁ m.event =
      (run (fun w f => handleFrame (receiver m.s.receiveCallback m.s.receiveContext) f w) m.v m.gs >>=
        fun w' => hooks.leave w' >>= fun p =>
          if p.1 then closeAndFreeServer statusOk p.2 else recvLoop hooks m.rest p.2) := by
  have happend := recvLoop_append m.chunks (.data m.bytes :: m.rest) m.reached m.server
  have hhandle : afIpcHandleReceiveMessage (receiver m.s.receiveCallback m.s.receiveContext) m.bytes
      (m.w.setServer { m.s with flags := m.s.flags ||| flagsInReceive }) =
      run (fun w f => handleFrame (receiver m.s.receiveCallback m.s.receiveContext) f w) m.v m.gs := by
    have hframe : run (fun w f => handleFrame (receiver m.s.receiveCallback m.s.receiveContext) f w)
        m.u (m.f :: m.gs) =
        run (fun w f => handleFrame (receiver m.s.receiveCallback m.s.receiveContext) f w) m.v m.gs := by
      rw [run_cons, m.returned]
      rfl
    rw [afIpcHandleReceiveMessage_eq, m.items, run_append, m.handled, ← hframe]
    rfl
  simp only [event, clientStep]
  rw [if_pos m.watched]
  show recvLoop hooks (m.earlier ++ .data m.bytes :: m.rest) _ = _
  rw [happend]
  simp only [recvLoop]
  have henter : hooks.enter m.w = .ok (receiver m.s.receiveCallback m.s.receiveContext,
      m.w.setServer { m.s with flags := m.s.flags ||| flagsInReceive }) := by
    simp only [hooks, deref_eq m.server, bind, Except.bind, pure, Except.pure]
  rw [henter]
  show (afIpcHandleReceiveMessage _ _ _ >>= _) = _
  rw [hhandle]
  rfl

/-- **Silence.**  From a state between events: the callback that closes the
    connection is the last call but the close callback exactly when it is
    harmless. -/
theorem silences_iff (hq : Quiet w₁) (hw : Sane w₁) : m.Silences ↔ m.Harmless := by
  obtain ⟨hkeep, hfree⟩ := @marked w₁ m hq hw
  rw [Silences, event_eq]
  refine ⟨?_, ?_⟩
  · rintro ⟨w', hrun, hcallbacks, -⟩
    rw [bind_eq_ok] at hrun
    obtain ⟨v', hrest, hrun⟩ := hrun
    -- the flag is cleared in the structure, which must still be there
    have hlive : ∃ t'', v'.server = some t'' := by
      cases hserver : v'.server with
      | some t'' => exact ⟨t'', rfl⟩
      | none =>
          have hderef : v'.deref = .error .useAfterRelease := by rw [World.deref, hserver]
          simp only [hooks, hderef, bind, Except.bind] at hrun
          cases hrun
    obtain ⟨t'', ht''⟩ := hlive
    by_cases hafter : ∀ a ∈ m.after, a.fails = false
    · obtain ⟨t', ht', hhandle, hsane, hopen⟩ := hkeep hafter
      refine ⟨hafter, fun t ht => ?_⟩
      obtain rfl := Option.some.inj (ht'.symm.trans ht)
      by_contra hheard
      obtain ⟨c, calls, hgrown, hc⟩ := handleFrames_heard ht' hsane
        (hopen.mono (fun f hf => hf.receiving)) hheard hrest ht''
      -- its call stands before that of the close callback
      obtain ⟨hleft, hreported, -⟩ := leave_marked (handleFrames_marked hsane hopen hrest ht'') ht''
        m.rest
      obtain rfl := Except.ok.inj (hrun.symm.trans hleft)
      rw [hreported, hgrown, List.append_assoc] at hcallbacks
      exact closeReport_ne hc _ (List.append_cancel_left hcallbacks)
    · have hnone := handleFrames_freed (hfree hafter) hrest
      rw [ht''] at hnone
      cases hnone
  · rintro ⟨hafter, hunheard⟩
    obtain ⟨t', ht', hhandle, hsane, hopen⟩ := hkeep hafter
    obtain ⟨v', t'', hrest, ht'', hhandle', hopen', hcallbacks⟩ :=
      @handleFrames_unheard m.v t' m.s.receiveCallback m.s.receiveContext m.gs MarkedFlags ht' hsane
        hopen (hunheard t' ht')
    obtain ⟨hleft, hreported, hfreed⟩ := leave_marked hopen' ht'' m.rest
    refine ⟨v'.leftMarked t'', ?_, ?_, fun later w'' hlater => ?_⟩
    · rw [hrest]
      exact hleft
    · rw [hreported, hcallbacks, closeReport_handle (hhandle'.trans hhandle)]
    · rw [run_freed hfreed later hlater]

end ClosingEvent

/-- **Closing from a callback silences the connection** exactly where there is
    nothing left to hear.  In any run of a client, for any event in which the
    callback of a frame calls `af_ipcc_close`, wherever in its chunk the frame is
    and whatever else the chunk holds: only the close callback follows if and only
    if the rest of the callback fails no send, and the application has a callback
    for none of the frames that are still to come in the chunk. -/
theorem close_silences_iff {env : OpenEnv} {base : EventBase} {name : CString}
    {receiveCallback : Option Callback} {receiveContext : Context}
    {closeCallback : Option Callback} {w₀ w₁ : World} (hbase : base.events = [])
    (hopen : afIpccOpenServer env base name receiveCallback receiveContext closeCallback =
      .ok (some w₀))
    (events : List ClientEvent) (hrun : run clientStep w₀ events = .ok w₁)
    (m : ClosingEvent w₁) : m.Silences ↔ m.Harmless := by
  obtain ⟨hq, hw⟩ := sane_of_open hbase hopen
  have hran := (clientRun_spec hq hw events).of_ok hrun
  exact m.silences_iff hran.quiet hran.sane

/-- The receive callback of a client closes it on an unsolicited message, and the
    frame `g` is behind the message in the same chunk. -/
def closeBefore (g : Frame) (hg : g.Deliverable) : ClosingEvent openClient where
  earlier := []
  bytes := [Frame.mk 0 [7], g].flatMap Frame.encode
  rest := []
  script := [[.close]]
  w := { openClient with script := [[.close]] }
  s := ⟨3, 0, some 1, some 2, 0, some 0, ⟨0, true, []⟩⟩
  fs := []
  f := ⟨0, [7]⟩
  gs := [g]
  u := { openClient with
    server := some ⟨3, 2, some 1, some 2, 0, some 0, ⟨0, true, []⟩⟩, script := [[.close]] }
  t := ⟨3, 2, some 1, some 2, 0, some 0, ⟨0, true, []⟩⟩
  before := []
  after := []
  scripts := []
  v := { openClient with
    server := some ⟨3, 3, some 1, some 2, 0, some 0, ⟨0, true, []⟩⟩
    trace := [.frame 0 ⟨0, [7]⟩, .receiveCallback 0 0 [7] 0] }
  watched := rfl
  chunks := fun r hr => absurd hr List.not_mem_nil
  reached := rfl
  server := rfl
  items := by
    have hgood : ∀ f ∈ [Frame.mk 0 [7], g], f.Deliverable := by
      intro f hf
      rcases List.mem_cons.mp hf with rfl | hf
      · exact ⟨by decide, by decide⟩
      · rw [List.mem_singleton.mp hf]
        exact hg
    exact frames_encodes.items_flatMap hgood
  handled := rfl
  alive := rfl
  heard := fun h => by
    have hnone := ((unheard_cons_new (by decide)).mp h).1
    cases hnone
  calls := rfl
  open_ := fun a ha => absurd ha List.not_mem_nil
  returned := rfl

/-- The frame behind the message is a response that comes too late. -/
theorem close_silences_iff_late :
    ∃ hg : (Frame.mk 1 [8]).Deliverable, (closeBefore ⟨1, [8]⟩ hg).Silences := by
  have hg : (Frame.mk 1 [8]).Deliverable := ⟨by decide, by decide⟩
  refine ⟨hg, ?_⟩
  have hiff := close_silences_iff rfl openClient_opens [] rfl (closeBefore ⟨1, [8]⟩ hg)
  apply hiff.mpr
  refine ⟨fun a ha => absurd ha List.not_mem_nil, fun t ht => ?_⟩
  obtain rfl := Option.some.inj ht
  apply (unheard_cons_unmatched (by decide) (fun r hr => absurd hr List.not_mem_nil)).mpr
  exact unheard_nil _ _

/-- The frame behind the message is another message: the receive callback is called
    for it after it has closed the connection. -/
theorem receive_after_close :
    run clientStep openClient [.recv [.data ([Frame.mk 0 [7], Frame.mk 0 [8]].flatMap Frame.encode)]
        [[.close]]] = .ok
      { server := none, base := ⟨[], 1⟩, script := []
        trace := [.frame 0 ⟨0, [7]⟩, .receiveCallback 0 0 [7] 0, .frame 0 ⟨0, [8]⟩,
          .receiveCallback 0 0 [8] 0, .shutdown 3 .rdwr, .closeFd 3, .release 0,
          .closeCallback 0 statusOk 0 0] } ∧
    ∃ hg : (Frame.mk 0 [8]).Deliverable, ¬ (closeBefore ⟨0, [8]⟩ hg).Silences := by
  have hg : (Frame.mk 0 [8]).Deliverable := ⟨by decide, by decide⟩
  refine ⟨rfl, hg, ?_⟩
  obtain ⟨hq, hw⟩ := sane_of_open rfl openClient_opens
  rw [ClosingEvent.silences_iff hq hw]
  rintro ⟨-, hunheard⟩
  have hnone := ((unheard_cons_new (by decide)).mp (hunheard _ rfl)).1
  cases hnone

end AfIpc.Ipcc
