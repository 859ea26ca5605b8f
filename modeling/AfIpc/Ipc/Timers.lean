/-
  AfIpc.Ipc.Timers

  Timers and pending requests correspond one to one in every run that registers
  no more requests than there are sequence ids.  Requests are taken out of the
  table by number, their timers by address; the two agree because the numbers of
  the pending requests are distinct, and those are distinct because the generator
  has not started over yet (`CountInv`).
-/

import AfIpc.Ipc.PendingUnique

namespace AfIpc.Ipc

open AfIpc.Lib

-- ============================================================================
-- The correspondence
-- ============================================================================

/-- Each pending request owns exactly one live timer, which is armed, and each
    live timer is that of exactly one pending request. -/
structure OneToOne (s : TableState) : Prop where
  timer : ∀ r ∈ s.rc.pendingRequests, ∃ e ∈ s.base.events, r.event = some e.id ∧ e.added = true ∧
    e.arg = .request r.ptr ∧ ∀ e' ∈ s.base.events, e'.arg = .request r.ptr → e' = e
  request : ∀ e ∈ s.base.events, ∃ r ∈ s.rc.pendingRequests, e.arg = .request r.ptr ∧
    ∀ r' ∈ s.rc.pendingRequests, e.arg = .request r'.ptr → r' = r

/-- A timer that fires finds its own request; what is left is everything else. -/
def FiresOnOwn (s : TableState) : Prop :=
  ∀ event ptr, s.base.timerOf event = some ptr →
    ∃ req rc base, req ∈ s.rc.pendingRequests ∧ req.ptr = ptr ∧ req.event = some event ∧
      afIpcOnTimeout ptr s.rc (timerFired event s.base) = .ok (req, rc, base) ∧
      tableStep s (.timeout event) = .ok ⟨rc, base⟩ ∧
      rc.pendingRequests = s.rc.pendingRequests.filter (fun r => r.ptr ≠ ptr) ∧
      base.events = s.base.events.filter (fun e => e.id ≠ event)

theorem TableInv.oneToOne {s : TableState} (h : TableInv s) : OneToOne s where
  timer := by
    intro r hr
    obtain ⟨-, e, he, htimer⟩ := h.timers.armed r hr
    refine ⟨_, htimer, he, rfl, rfl, ?_⟩
    intro e' he' harg
    obtain ⟨r', hr', hev, harg'⟩ := h.timers.owned e' he'
    rw [harg, EventArg.request.injEq] at harg'
    have hsame : r = r' := List.inj_on_of_nodup_map h.timers.ptrs hr hr' harg'
    rw [← hsame, he, Option.some.injEq] at hev
    exact EventBase.id_inj h.timers.events he' htimer hev.symm
  request := by
    intro e he
    obtain ⟨r, hr, -, harg⟩ := h.timers.owned e he
    refine ⟨r, hr, harg, ?_⟩
    intro r' hr' harg'
    rw [harg, EventArg.request.injEq] at harg'
    exact List.inj_on_of_nodup_map h.timers.ptrs hr' hr harg'.symm

theorem TableInv.firesOnOwn {s : TableState} (h : TableInv s) : FiresOnOwn s := by
  intro event ptr htimer
  obtain ⟨e, he, hid, harg, -⟩ := timerOf_eq_some htimer
  obtain ⟨req, hmem, hevent, harg'⟩ := h.timers.owned e he
  have hptr : req.ptr = ptr := by
    rw [harg, EventArg.request.injEq] at harg'
    exact harg'.symm
  subst hptr
  rw [hid] at hevent
  have hout := @afIpcOnTimeout_eq s.rc (timerFired event s.base) req h.unique.nodup h.timers.ptrs
    hmem
  refine ⟨req, _, _, hmem, rfl, hevent, hout, ?_, rfl, ?_⟩
  · simp only [tableStep, htimer, hout]
    rfl
  · rw [hevent]
    show (eventFree event (timerFired event s.base)).events = _
    rw [eventFree_timerFired]
    apply List.filter_congr
    intro v _
    by_cases hv : v.id = event
    · simp [hv]
    · simp [hv]

/-- What freeing the timers of some requests leaves. -/
theorem mem_foldl_eventFreeIf (reqs : List Request) (base : EventBase) (e : Event) :
    e ∈ (reqs.foldl (fun base r => eventFreeIf r.event base) base).events ↔
      e ∈ base.events ∧ ∀ r ∈ reqs, r.event ≠ some e.id := by
  induction reqs generalizing base with
  | nil => simp
  | cons r reqs ih =>
      rw [List.foldl_cons, ih, List.forall_mem_cons]
      have hfirst : e ∈ (eventFreeIf r.event base).events ↔
          e ∈ base.events ∧ r.event ≠ some e.id := by
        cases hev : r.event with
        | none => simp [eventFreeIf]
        | some id =>
            simp only [eventFreeIf, eventFree, List.mem_filter, bne_iff_ne, ne_eq,
              Option.some.injEq]
            exact and_congr_right (fun _ => not_congr eq_comm)
      rw [hfirst, and_assoc]

/-- Shutting the table down frees every timer. -/
theorem TableInv.shutdown {s : TableState} (h : TableInv s) :
    (afIpcUtilShutdownRequests s.rc s.base).2.events = [] := by
  rw [List.eq_nil_iff_forall_not_mem]
  intro e he
  obtain ⟨hlive, hfree⟩ := (mem_foldl_eventFreeIf s.rc.pendingRequests s.base e).mp he
  obtain ⟨r, hr, hev, -⟩ := h.timers.owned e hlive
  exact hfree r hr hev

-- ============================================================================
-- Counting the numbers
-- ============================================================================

/-- The call gets a record from the pool and registers it under a new number;
    it may be taken out again before the call returns. -/
def TableOp.registers : TableOp → Bool
  | .send _ txBufferSize _ _ timeoutMs env =>
    !oversize txBufferSize && decide (0 < timeoutMs) && env.alloc
  | .response _ => false
  | .timeout _ => false

/-- The number generator counts the registrations, and no pending request has a
    number above it. -/
structure CountInv (n : Nat) (s : TableState) : Prop where
  table : TableInv s
  last : s.rc.lastSeqId.toNat = n
  below : ∀ r ∈ s.rc.pendingRequests, r.seqNum.toNat ≤ n

theorem countInv_initial (next : Nat) : CountInv 0 (initialTable next) where
  table := tableInv_initial next
  last := rfl
  below := fun _ hr => absurd hr List.not_mem_nil

/-- A send takes in no request but a new one, and moves the generator on exactly
    if it registers. -/
theorem tableStep_send {s : TableState} (h : Fresh s.rc s.base) {txBuffer : List Byte}
    {txBufferSize : Int} {callback : Option Callback} {context : Context} {timeoutMs : Int}
    {env : SendEnv} {s' : TableState}
    (hstep : tableStep s (.send txBuffer txBufferSize callback context timeoutMs env) = .ok s') :
    s'.rc.lastSeqId =
        (if (TableOp.send txBuffer txBufferSize callback context timeoutMs env).registers
          then nextSeqId s.rc.lastSeqId else s.rc.lastSeqId) ∧
      ∀ r ∈ s'.rc.pendingRequests, r ∈ s.rc.pendingRequests ∨
        (r.seqNum = newSeqNum s.rc ∧
          (TableOp.send txBuffer txBufferSize callback context timeoutMs env).registers = true) := by
  simp only [tableStep, Except.ok.injEq] at hstep
  subst hstep
  unfold afIpcSend
  cases hover : oversize txBufferSize with
  | true =>
      simp only [TableOp.registers, hover]
      exact ⟨rfl, fun r hr => Or.inl hr⟩
  | false =>
      rw [if_neg Bool.false_ne_true]
      by_cases ht : timeoutMs > 0
      · rw [if_pos ht]
        cases halloc : env.alloc with
        | false =>
            simp only [sendRegister, TableOp.registers, hover, halloc, Bool.and_false]
            exact ⟨rfl, fun r hr => Or.inl hr⟩
        | true =>
            have hreg : (TableOp.send txBuffer txBufferSize callback context timeoutMs
                env).registers = true := by
              simp [TableOp.registers, hover, halloc, ht]
            rw [hreg, if_pos rfl]
            cases htimer : env.timer with
            | false =>
                simp only [sendRegister_error halloc htimer]
                exact ⟨rfl, fun r hr => Or.inl hr⟩
            | true =>
                simp only [sendRegister_ok halloc htimer h]
                by_cases hmsg : env.sendmsg = true
                · rw [if_pos hmsg]
                  refine ⟨rfl, ?_⟩
                  intro r hr
                  rcases List.mem_cons.mp hr with rfl | hr
                  · exact Or.inr ⟨rfl, trivial⟩
                  · exact Or.inl hr
                · rw [if_neg hmsg, sendUnregister_registerIn h]
                  exact ⟨rfl, fun r hr => Or.inl hr⟩
      · rw [if_neg ht]
        have hreg : (TableOp.send txBuffer txBufferSize callback context timeoutMs
            env).registers = false := by
          have hnpos : ¬ 0 < timeoutMs := ht
          simp [TableOp.registers, hnpos]
        rw [hreg, if_neg Bool.false_ne_true]
        by_cases hmsg : env.sendmsg = true
        · rw [if_pos hmsg]
          exact ⟨rfl, fun r hr => Or.inl hr⟩
        · rw [if_neg hmsg]
          exact ⟨rfl, fun r hr => Or.inl hr⟩

/-- What a call adds to the count. -/
def TableOp.count (op : TableOp) : Nat := if op.registers then 1 else 0

/-- Below the wrap the number a send registers is above those of the pending
    requests. -/
theorem CountInv.numberFree {n : Nat} {s : TableState} (h : CountInv n s) (op : TableOp)
    (hn : n + op.count < 2 ^ 15) : NumberFree s op := by
  cases op with
  | response seqNum => trivial
  | timeout event => trivial
  | send txBuffer txBufferSize callback context timeoutMs env =>
      intro ht hs r hr heq
      have hreg : (TableOp.send txBuffer txBufferSize callback context timeoutMs
          env).registers = true := by
        simp only [sendSucceeds, Bool.and_eq_true, Bool.or_eq_true, decide_eq_true_eq] at hs
        obtain ⟨⟨hover, -⟩, hle | ⟨⟨-, halloc⟩, -⟩⟩ := hs
        · omega
        · simp only [TableOp.registers, Bool.and_eq_true, decide_eq_true_eq]
          exact ⟨⟨hover, ht⟩, halloc⟩
      rw [TableOp.count, if_pos hreg] at hn
      have hlast : s.rc.lastSeqId.toNat < 2 ^ 15 - 1 := by
        rw [h.last]
        omega
      have hnext := nextSeqId_of_lt hlast
      have hle := h.below r hr
      rw [heq, newSeqNum_toNat, hnext, h.last] at hle
      omega

/-- One call. -/
theorem tableStep_count {n : Nat} {s : TableState} (h : CountInv n s) (op : TableOp)
    (hn : n + op.count < 2 ^ 15) :
    ∃ s', tableStep s op = .ok s' ∧ CountInv (n + op.count) s' := by
  obtain ⟨s', hstep, hkeep, -⟩ := tableStep_inv h.table op
  have hinv := hkeep (h.numberFree op hn)
  cases op with
  | send txBuffer txBufferSize callback context timeoutMs env =>
      obtain ⟨hlast, hmem⟩ := tableStep_send h.table.timers.fresh hstep
      refine ⟨s', hstep, hinv, ?_, ?_⟩
      · rw [hlast, TableOp.count]
        split_ifs with hreg
        · rw [TableOp.count, if_pos hreg] at hn
          rw [nextSeqId_of_lt (by rw [h.last]; omega), h.last]
        · exact h.last
      · intro r hr
        rcases hmem r hr with hold | ⟨hnum, hreg⟩
        · exact Nat.le_add_right_of_le (h.below r hold)
        · rw [TableOp.count, if_pos hreg] at hn ⊢
          rw [hnum, newSeqNum_toNat, nextSeqId_of_lt (by rw [h.last]; omega), h.last]
  | response seqNum =>
      refine ⟨s', hstep, ?_⟩
      simp only [tableStep, Except.ok.injEq] at hstep
      subst hstep
      have hsub := @takeResponse_sub seqNum s.rc _ s.base _ _ rfl
      refine ⟨hinv, ?_, fun r hr => h.below r (hsub.2 r hr)⟩
      unfold takeResponse
      split
      · exact h.last
      · exact h.last
  | timeout event =>
      refine ⟨s', hstep, ?_⟩
      cases htimer : s.base.timerOf event with
      | none =>
          simp only [tableStep, htimer, Except.ok.injEq] at hstep
          subst hstep
          exact ⟨hinv, h.last, h.below⟩
      | some ptr =>
          obtain ⟨req, rc, base, -, -, -, hout, hown, hpending, -⟩ :=
            h.table.firesOnOwn event ptr htimer
          rw [hown, Except.ok.injEq] at hstep
          subst hstep
          have hlast : rc.lastSeqId = s.rc.lastSeqId := by
            obtain ⟨-, rfl, -⟩ := afIpcOnTimeout_found hout
            rfl
          refine ⟨hinv, ?_, ?_⟩
          · show rc.lastSeqId.toNat = n
            rw [hlast]
            exact h.last
          · intro r hr
            rw [hpending] at hr
            exact h.below r (List.mem_of_mem_filter hr)

/-- A run. -/
theorem run_count {n : Nat} {s : TableState} (h : CountInv n s) (ops : List TableOp)
    (hn : n + (ops.map TableOp.count).sum < 2 ^ 15) :
    ∃ s', run tableStep s ops = .ok s' ∧ CountInv (n + (ops.map TableOp.count).sum) s' := by
  induction ops generalizing n s with
  | nil => exact ⟨s, rfl, h⟩
  | cons op ops ih =>
      rw [List.map_cons, List.sum_cons, ← Nat.add_assoc] at hn ⊢
      obtain ⟨s₁, hstep, hs₁⟩ := tableStep_count h op (by omega)
      obtain ⟨s₂, hrun, hs₂⟩ := ih hs₁ hn
      refine ⟨s₂, ?_, hs₂⟩
      rw [run_cons, hstep]
      exact hrun

/-- **Timers and pending requests correspond one to one.**  In a run of sends,
    responses and timeouts on a request table that registers at most 32767
    requests, whichever way its sends end, in every state between two calls: each
    pending request owns exactly one live timer and each live timer is that of a
    pending request; a timer that fires finds its own request and takes out that
    request and its timer; and shutting the table down leaves no live timer. -/
theorem timers_match_run (next : Nat) (ops : List TableOp)
    (hbound : ops.countP TableOp.registers ≤ 32767) (before after : List TableOp)
    (hops : ops = before ++ after) :
    ∃ s, run tableStep (initialTable next) before = .ok s ∧ OneToOne s ∧ FiresOnOwn s ∧
      (afIpcUtilShutdownRequests s.rc s.base).1.pendingRequests = [] ∧
      (afIpcUtilShutdownRequests s.rc s.base).2.events = [] := by
  have hcount : ∀ l : List TableOp, (l.map TableOp.count).sum = l.countP TableOp.registers := by
    intro l
    induction l with
    | nil => rfl
    | cons op l ih =>
        rw [List.map_cons, List.sum_cons, ih, List.countP_cons, TableOp.count, Nat.add_comm]
  have hbefore : before.countP TableOp.registers ≤ 32767 := by
    rw [hops, List.countP_append] at hbound
    omega
  obtain ⟨s, hrun, hinv⟩ := run_count (countInv_initial next) before
    (by rw [hcount]; omega)
  exact ⟨s, hrun, hinv.table.oneToOne, hinv.table.firesOnOwn, rfl, hinv.table.shutdown⟩

/-- A request of one byte. -/
def oneByteRequest : TableOp := .send [0] 1 (some 0) 0 1000 SendEnv.good

/-- Two requests, the first answered before its time and the second timed out,
    and between them a request whose `sendmsg` fails. -/
theorem timers_match_run_three :
    ∃ s, run tableStep (initialTable 0) [oneByteRequest,
        .send [0] 1 (some 0) 0 1000 { SendEnv.good with sendmsg := false }, oneByteRequest,
        .response 1, .timeout 5] = .ok s ∧ OneToOne s ∧ FiresOnOwn s ∧
      (afIpcUtilShutdownRequests s.rc s.base).1.pendingRequests = [] ∧
      (afIpcUtilShutdownRequests s.rc s.base).2.events = [] :=
  timers_match_run 0 _ (by decide) _ [] rfl

end AfIpc.Ipc
