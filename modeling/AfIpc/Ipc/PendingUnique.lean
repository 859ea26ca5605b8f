/-
  AfIpc.Ipc.PendingUnique

  Runs of one request table: sends of requests, responses and timeouts in any
  order.  `TableInv` ties the pending requests to their timers and says that
  their sequence numbers are distinct.  A send keeps it exactly if the number it
  generates is not pending, which the generator does not check: it counts to
  2^15 - 1 and starts over.
-/

import AfIpc.Lib.Run
import AfIpc.Ipc.RequestSpec

namespace AfIpc.Ipc

open AfIpc.Lib

-- ============================================================================
-- The machine
-- ============================================================================

/-- A request table and the event base of its timers. -/
structure TableState where
  rc : ReqControl
  base : EventBase
  deriving DecidableEq, Repr

/-- What can happen to a request table. -/
inductive TableOp where
  | send (txBuffer : List Byte) (txBufferSize : Int) (callback : Option Callback)
      (context : Context) (timeoutMs : Int) (env : SendEnv)
  | response (seqNum : BitVec 32)
  | timeout (event : Nat)

/-- One call on the table.  Only an armed timer fires. -/
def tableStep (s : TableState) : TableOp → Except Fault TableState
  | .send txBuffer txBufferSize callback context timeoutMs env =>
    let r := afIpcSend (some s.rc) s.base 0 txBuffer txBufferSize callback context timeoutMs env
    .ok ⟨r.rc.getD s.rc, r.base⟩
  | .response seqNum =>
    let (_, rc, base) := takeResponse seqNum s.rc s.base
    .ok ⟨rc, base⟩
  | .timeout event =>
    match s.base.timerOf event with
    | none => .ok s
    | some ptr => do
      let (_, rc, base) ← afIpcOnTimeout ptr s.rc (timerFired event s.base)
      return ⟨rc, base⟩

/-- The table as `af_ipc_util_init_requests` leaves it, and an event base without
    timers. -/
def initialTable (next : Nat) : TableState := ⟨(afIpcUtilInitRequests true 0).2, ⟨[], next⟩⟩

-- ============================================================================
-- The invariant
-- ============================================================================

/-- The pending requests have distinct sequence numbers of 15 bits, none zero. -/
structure UniqueSeqNums (rc : ReqControl) : Prop where
  nodup : (rc.pendingRequests.map Request.seqNum).Nodup
  range : ∀ r ∈ rc.pendingRequests, 0 < r.seqNum.toNat ∧ r.seqNum.toNat < 2 ^ 15

/-- Each pending request owns one armed timer, and each timer is one of them. -/
structure TimersMatch (rc : ReqControl) (base : EventBase) : Prop where
  fresh : Fresh rc base
  ptrs : (rc.pendingRequests.map Request.ptr).Nodup
  events : (base.events.map Event.id).Nodup
  armed : ∀ r ∈ rc.pendingRequests, 0 < r.timeoutVal ∧
    ∃ e, r.event = some e ∧ ⟨e, .request r.ptr, true⟩ ∈ base.events
  owned : ∀ e ∈ base.events, ∃ r ∈ rc.pendingRequests, r.event = some e.id ∧ e.arg = .request r.ptr

structure TableInv (s : TableState) : Prop where
  unique : UniqueSeqNums s.rc
  timers : TimersMatch s.rc s.base

theorem tableInv_initial (next : Nat) : TableInv (initialTable next) where
  unique := ⟨List.nodup_nil, fun _ hr => absurd hr List.not_mem_nil⟩
  timers :=
    { fresh := ⟨fun _ hr => absurd hr List.not_mem_nil, fun _ he => absurd he List.not_mem_nil⟩
      ptrs := List.nodup_nil
      events := List.nodup_nil
      armed := fun _ hr => absurd hr List.not_mem_nil
      owned := fun _ he => absurd he List.not_mem_nil }

theorem UniqueSeqNums.without {rc : ReqControl} (h : UniqueSeqNums rc) (ptr : Nat) :
    UniqueSeqNums (rc.without ptr) where
  nodup := h.nodup.sublist (List.filter_sublist.map _)
  range := fun r hr => h.range r (List.mem_of_mem_filter hr)

theorem EventBase.id_inj {base : EventBase} (h : (base.events.map Event.id).Nodup) {e e' : Event}
    (he : e ∈ base.events) (he' : e' ∈ base.events) (hid : e.id = e'.id) : e = e' :=
  List.inj_on_of_nodup_map h he he' hid

/-- A request goes with its timer. -/
theorem TimersMatch.without {rc : ReqControl} {base : EventBase} (h : TimersMatch rc base)
    {req : Request} (hmem : req ∈ rc.pendingRequests) :
    TimersMatch (rc.without req.ptr) (eventFreeIf req.event base) := by
  obtain ⟨_, e, he, htimer⟩ := h.armed req hmem
  have hsub : ∀ r ∈ (rc.without req.ptr).pendingRequests, r ∈ rc.pendingRequests ∧
      r.ptr ≠ req.ptr := by
    intro r hr
    rw [ReqControl.without, List.mem_filter] at hr
    exact ⟨hr.1, by simpa using hr.2⟩
  have hevents : (eventFreeIf req.event base).events = base.events.filter (fun v => v.id != e) := by
    rw [he]
    rfl
  have hnext : (eventFreeIf req.event base).next = base.next := by
    rw [he]
    rfl
  exact
    { fresh := by
        refine ⟨fun r hr => ?_, fun v hv => ?_⟩
        · rw [hnext]
          exact h.fresh.requests r (hsub r hr).1
        · rw [hnext]
          rw [hevents] at hv
          exact h.fresh.events v (List.mem_of_mem_filter hv)
      ptrs := h.ptrs.sublist (List.filter_sublist.map _)
      events := by
        rw [hevents]
        exact h.events.sublist (List.filter_sublist.map _)
      armed := by
        intro r hr
        obtain ⟨hr, hne⟩ := hsub r hr
        obtain ⟨hpos, e', he', htimer'⟩ := h.armed r hr
        refine ⟨hpos, e', he', ?_⟩
        rw [hevents, List.mem_filter]
        refine ⟨htimer', ?_⟩
        -- one event cannot be the timer of both
        have hid : e' ≠ e := by
          rintro rfl
          have heq := EventBase.id_inj h.events htimer' htimer rfl
          simp only [Event.mk.injEq, EventArg.request.injEq] at heq
          exact hne heq.2.1
        simpa using hid
      owned := by
        intro v hv
        rw [hevents, List.mem_filter] at hv
        obtain ⟨r, hr, hev, harg⟩ := h.owned v hv.1
        refine ⟨r, ?_, hev, harg⟩
        rw [ReqControl.without, List.mem_filter]
        refine ⟨hr, ?_⟩
        have hne : r.ptr ≠ req.ptr := by
          intro heq
          have hsame := List.inj_on_of_nodup_map h.ptrs hr hmem heq
          rw [hsame, he, Option.some.injEq] at hev
          simp [hev] at hv
        simpa using hne }

/-- A new request comes with its timer. -/
theorem TimersMatch.register {rc : ReqControl} {base : EventBase} (h : TimersMatch rc base)
    (callback : Option Callback) (context : Context) {timeoutMs : Int} (ht : 0 < timeoutMs) :
    TimersMatch (registerIn rc base callback context timeoutMs) (armTimer base) where
  fresh := by
    refine ⟨fun r hr => ?_, fun v hv => ?_⟩
    · rcases List.mem_cons.mp hr with rfl | hr
      · show base.next < base.next + 2
        omega
      · exact Nat.lt_add_right 2 (h.fresh.requests r hr)
    · rcases List.mem_cons.mp hv with rfl | hv
      · show base.next + 1 < base.next + 2
        omega
      · exact Nat.lt_add_right 2 (h.fresh.events v hv)
  ptrs := by
    refine List.nodup_cons.mpr ⟨?_, h.ptrs⟩
    intro hin
    obtain ⟨r, hr, heq⟩ := List.mem_map.mp hin
    have hlt := h.fresh.requests r hr
    have hptr : r.ptr = base.next := heq
    omega
  events := by
    refine List.nodup_cons.mpr ⟨?_, h.events⟩
    intro hin
    obtain ⟨v, hv, heq⟩ := List.mem_map.mp hin
    have hlt := h.fresh.events v hv
    have hid : v.id = base.next + 1 := heq
    omega
  armed := by
    intro r hr
    rcases List.mem_cons.mp hr with rfl | hr
    · exact ⟨ht, base.next + 1, rfl, List.mem_cons_self⟩
    · obtain ⟨hpos, e, he, htimer⟩ := h.armed r hr
      exact ⟨hpos, e, he, List.mem_cons_of_mem _ htimer⟩
  owned := by
    intro v hv
    rcases List.mem_cons.mp hv with rfl | hv
    · exact ⟨_, List.mem_cons_self, rfl, rfl⟩
    · obtain ⟨r, hr, hev, harg⟩ := h.owned v hv
      exact ⟨r, List.mem_cons_of_mem _ hr, hev, harg⟩

/-- A send that failed leaves the match as it was. -/
theorem TimersMatch.of_fail {rc : ReqControl} {base : EventBase} (h : TimersMatch rc base)
    {last : BitVec 16} {next : Nat} (hnext : base.next ≤ next) :
    TimersMatch { rc with lastSeqId := last } { base with next := next } where
  fresh := ⟨fun r hr => Nat.lt_of_lt_of_le (h.fresh.requests r hr) hnext,
    fun v hv => Nat.lt_of_lt_of_le (h.fresh.events v hv) hnext⟩
  ptrs := h.ptrs
  events := h.events
  armed := h.armed
  owned := h.owned

/-- A registered request keeps the numbers distinct exactly if its own is free. -/
theorem uniqueSeqNums_register_iff {rc : ReqControl} (h : UniqueSeqNums rc) (base : EventBase)
    (callback : Option Callback) (context : Context) (timeoutMs : Int) :
    UniqueSeqNums (registerIn rc base callback context timeoutMs) ↔
      ∀ r ∈ rc.pendingRequests, r.seqNum ≠ newSeqNum rc := by
  refine ⟨?_, ?_⟩
  · intro hnew r hr heq
    have hnodup := hnew.nodup
    rw [registerIn, List.map_cons, List.nodup_cons] at hnodup
    exact hnodup.1 (List.mem_map.mpr ⟨r, hr, heq⟩)
  · intro hfree
    refine ⟨?_, fun r hr => ?_⟩
    · refine List.nodup_cons.mpr ⟨?_, h.nodup⟩
      intro hin
      obtain ⟨r, hr, heq⟩ := List.mem_map.mp hin
      exact hfree r hr heq
    · rcases List.mem_cons.mp hr with rfl | hr
      · show 0 < (newSeqNum rc).toNat ∧ (newSeqNum rc).toNat < 2 ^ 15
        rw [newSeqNum_toNat]
        exact ⟨nextSeqId_pos rc.lastSeqId, nextSeqId_lt rc.lastSeqId⟩
      · exact h.range r hr

-- ============================================================================
-- Steps
-- ============================================================================

/-- The sequence number a call would register is not that of a pending request. -/
def NumberFree (s : TableState) : TableOp → Prop
  | .send _ txBufferSize _ _ timeoutMs env => 0 < timeoutMs →
    sendSucceeds (some s.rc) txBufferSize timeoutMs env = true →
    ∀ r ∈ s.rc.pendingRequests, r.seqNum ≠ newSeqNum s.rc
  | .response _ => True
  | .timeout _ => True

/-- Every step but a send keeps the invariant, and a send keeps it exactly if the
    number it registers is free. -/
theorem tableStep_inv {s : TableState} (h : TableInv s) (op : TableOp) :
    ∃ s', tableStep s op = .ok s' ∧ (NumberFree s op → TableInv s') ∧
      (UniqueSeqNums s'.rc → NumberFree s op) := by
  cases op with
  | send txBuffer txBufferSize callback context timeoutMs env =>
      simp only [tableStep]
      cases hs : sendSucceeds (some s.rc) txBufferSize timeoutMs env with
      | true =>
          by_cases ht : 0 < timeoutMs
          · rw [afIpcSend_register hs ht h.timers.fresh]
            have hiff := uniqueSeqNums_register_iff h.unique s.base callback context
              timeoutMs
            refine ⟨_, rfl, fun hfree => ⟨hiff.mpr (hfree ht hs), ?_⟩, fun hu _ _ => hiff.mp hu⟩
            exact h.timers.register callback context ht
          · rw [afIpcSend_plain hs (by omega)]
            exact ⟨_, rfl, fun _ => h, fun _ ht' => absurd ht' ht⟩
      | false =>
          have hfresh : ∀ table, some s.rc = some table → Fresh table s.base := by
            rintro table ⟨⟩
            exact h.timers.fresh
          obtain ⟨errno, packet, rc', next, heq, hnext, _, hrc⟩ :=
            @afIpcSend_fail (some s.rc) s.base 0 txBuffer txBufferSize callback context timeoutMs
              env hs hfresh
          rw [heq]
          refine ⟨_, rfl, fun _ => ?_, fun _ _ hs' => ?_⟩
          · rcases hrc with rfl | ⟨table, ⟨⟩, rfl⟩
            · exact ⟨h.unique, h.timers.of_fail hnext⟩
            · exact ⟨⟨h.unique.nodup, h.unique.range⟩, h.timers.of_fail hnext⟩
          · rw [hs] at hs'
            cases hs'
  | response seqNum =>
      simp only [tableStep]
      by_cases hin : ∃ r ∈ s.rc.pendingRequests, r.seqNum = seqNum
      · obtain ⟨req, hmem, rfl⟩ := hin
        rw [takeResponse_eq h.unique.nodup h.timers.ptrs hmem (h.timers.armed req hmem).1]
        exact ⟨_, rfl, fun _ => ⟨h.unique.without _, h.timers.without hmem⟩, fun _ => trivial⟩
      · have hno : ∀ r ∈ s.rc.pendingRequests, r.seqNum ≠ seqNum :=
          fun r hr heq => hin ⟨r, hr, heq⟩
        rw [takeResponse_none hno]
        exact ⟨_, rfl, fun _ => h, fun _ => trivial⟩
  | timeout event =>
      simp only [tableStep]
      cases htimer : s.base.timerOf event with
      | none => exact ⟨_, rfl, fun _ => h, fun _ => trivial⟩
      | some ptr =>
          obtain ⟨e, he, hid, harg, _⟩ := timerOf_eq_some htimer
          obtain ⟨req, hmem, hevent, harg'⟩ := h.timers.owned e he
          have hptr : req.ptr = ptr := by
            rw [harg, EventArg.request.injEq] at harg'
            exact harg'.symm
          subst hptr
          rw [hid] at hevent
          have hfired : eventFreeIf req.event (timerFired event s.base) =
              eventFreeIf req.event s.base := by
            rw [hevent]
            exact eventFree_timerFired event s.base
          simp only [afIpcOnTimeout_eq h.unique.nodup h.timers.ptrs hmem, hfired]
          exact ⟨_, rfl, fun _ => ⟨h.unique.without _, h.timers.without hmem⟩, fun _ => trivial⟩

-- ============================================================================
-- Runs
-- ============================================================================

/-- Lookup and removal by sequence number act on the request they are meant for. -/
def ActsOnOwn (rc : ReqControl) : Prop :=
  ∀ req ∈ rc.pendingRequests,
    rc.pendingRequests.find? (fun r => r.seqNum = req.seqNum) = some req ∧
    (afIpcRemoveRequest rc req.seqNum).pendingRequests =
      rc.pendingRequests.filter (fun r => r.ptr ≠ req.ptr)

theorem TableInv.actsOnOwn {s : TableState} (h : TableInv s) : ActsOnOwn s.rc := by
  intro req hmem
  refine ⟨find?_key h.unique.nodup hmem, ?_⟩
  rw [removeRequest_eq h.unique.nodup h.timers.ptrs hmem]
  rfl

/-- **Runs from a state that meets the invariant.** -/
theorem run_unique_iff {s : TableState} (h : TableInv s) (ops : List TableOp) :
    Conforms tableStep NumberFree s ops ↔
      ∀ before after, ops = before ++ after →
        ∃ t, run tableStep s before = .ok t ∧ UniqueSeqNums t.rc ∧ ActsOnOwn t.rc := by
  induction ops generalizing s with
  | nil =>
      refine ⟨fun _ before after heq => ?_, fun _ => trivial⟩
      have hnil : before = [] := (List.append_eq_nil_iff.mp heq.symm).1
      subst hnil
      exact ⟨s, rfl, h.unique, h.actsOnOwn⟩
  | cons op ops ih =>
      obtain ⟨s', hstep, hkeep, hfree⟩ := tableStep_inv h op
      refine ⟨?_, ?_⟩
      · rintro ⟨hop, hrest⟩ before after heq
        cases before with
        | nil => exact ⟨s, rfl, h.unique, h.actsOnOwn⟩
        | cons op' before =>
            rw [List.cons_append, List.cons.injEq] at heq
            obtain ⟨rfl, heq⟩ := heq
            obtain ⟨t, hrun, ht⟩ := (ih (hkeep hop)).mp (hrest s' hstep) before after heq
            refine ⟨t, ?_, ht⟩
            rw [run_cons, hstep]
            exact hrun
      · intro hall
        -- the first step already shows whether the number was free
        obtain ⟨t, hrun, hunique, _⟩ := hall [op] ops rfl
        rw [run_cons, hstep] at hrun
        have ht : s' = t := Except.ok.inj hrun
        subst ht
        have hop := hfree hunique
        refine ⟨hop, fun t ht => ?_⟩
        rw [hstep, Except.ok.injEq] at ht
        subst ht
        refine (ih (hkeep hop)).mpr (fun before after heq => ?_)
        obtain ⟨t, hrun', ht⟩ := hall (op :: before) after (by rw [heq, List.cons_append])
        rw [run_cons, hstep] at hrun'
        exact ⟨t, hrun', ht⟩

end AfIpc.Ipc
